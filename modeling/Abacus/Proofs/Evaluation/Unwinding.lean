import Abacus.Evaluation.Outcome

/-!
# Unwinding

How pending operations go and how runs over lists of tokens compose. A run that unwinds stops at
the first pending operation that is not ready (`Run.unwind_of_head`), and in front of it may have
let go of any number of ready ones (`Run.unwind_cons`).

* `runTokens_append`: two lists of tokens are read one after the other;
* `Run.step_literal`, `Run.step_binary` and the like: what a token is read as after what comes
  before it;
* `Run.separate_of_unwindScope`, `Run.close_call`, `Run.close_group`: the end of an argument, a call
  and a group.
-/

namespace Abacus

/-! ## Outcomes in sequence -/

section Bind

variable {ε α β : Type}

@[simp] theorem ok_bind (a : α) (f : α → Except ε β) : (Except.ok a >>= f) = f a := rfl

@[simp] theorem error_bind (error : ε) (f : α → Except ε β) :
    (Except.error error >>= f) = .error error := rfl

theorem bind_congr_ok {x : Except ε α} {f g : α → Except ε β} (h : ∀ a, x = .ok a → f a = g a) :
    x >>= f = x >>= g := by
  cases x with
  | error => rfl
  | ok a => exact h a rfl

theorem bind_eq_ok {x : Except ε α} {f : α → Except ε β} {b : β} :
    (x >>= f) = .ok b ↔ ∃ a, x = .ok a ∧ f a = .ok b := by
  cases x <;> simp

theorem bind_eq_error {x : Except ε α} {f : α → Except ε β} {error : ε} :
    (x >>= f) = .error error ↔ x = .error error ∨ ∃ a, x = .ok a ∧ f a = .error error := by
  cases x <;> simp

/-- A list is not read because of the first of its members that is not. -/
theorem exists_first_of_mapM_eq_error {f : α → Except ε β} {as : List α} {error : ε}
    (h : as.mapM f = .error error) :
    ∃ before a after, as = before ++ a :: after ∧ (∀ b ∈ before, ∃ value, f b = .ok value) ∧
      f a = .error error := by
  induction as with
  | nil => cases h
  | cons a as ih =>
    rw [List.mapM_cons] at h
    rcases bind_eq_error.1 h with ha | ⟨value, ha, h⟩
    · exact ⟨[], a, as, rfl, nofun, ha⟩
    · rcases bind_eq_error.1 h with has | ⟨values, -, h⟩
      · obtain ⟨before, a', after, rfl, hbefore, ha'⟩ := ih has
        exact ⟨a :: before, a', after, rfl, List.forall_mem_cons.2 ⟨⟨value, ha⟩, hbefore⟩, ha'⟩
      · cases h

end Bind

/-! ## Pending operations -/

theorem Operation.firesBefore_of_isScope {pending : Operation} (h : pending.isScope = true)
    (incoming : Operation) : pending.firesBefore incoming = false := by
  obtain ⟨name, role⟩ := pending
  cases role <;> simp [isScope, kind, Role.kind] at h <;> unfold firesBefore <;> split <;> rfl

namespace Run

variable {ready : Operation → Bool} {frames : List Frame} {w : Workspace} {previous : Reading}

theorem unwind_of_head (h : ∀ frame ∈ frames.head?, ready frame.operation = false) :
    unwind ⟨frames, w, previous⟩ ready = .ok ⟨frames, w, previous⟩ := by
  cases frames with
  | nil => rfl
  | cons frame frames =>
    simp only [unwind, fireWhile, h frame rfl, Bool.false_eq_true, if_false]
    rfl

theorem unwind_cons {frame : Frame} (h : ready frame.operation = true) :
    unwind ⟨frame :: frames, w, previous⟩ ready =
      frame.fire w >>= fun w => unwind ⟨frames, w, previous⟩ ready := by
  simp only [unwind, fireWhile_cons, h, if_true, bind_assoc]

end Run

/-! ## Running over lists of tokens -/

section Tokens

variable {registry : Registry} {store : Store} {run : Run}

theorem Run.step_congr_next {index : Nat} {token : Token} (h : token.kind ≠ .function)
    (next next' : Option Token) :
    run.step registry store index token next = run.step registry store index token next' := by
  obtain ⟨kind, text⟩ := token
  cases kind <;> first | exact absurd rfl h | rfl

/-- Reading two lists one after the other. The first may not end in the name of a function, which
looks ahead. -/
theorem runTokens_append {xs : List Token} (h : ∀ token ∈ xs.getLast?, token.kind ≠ .function)
    (ys : List Token) (index : Nat) :
    runTokens registry store run index (xs ++ ys) =
      runTokens registry store run index xs >>= fun run =>
        runTokens registry store run (index + xs.length) ys := by
  induction xs generalizing run index with
  | nil => rfl
  | cons token xs ih =>
    have hs : run.step registry store index token (xs ++ ys).head? =
        run.step registry store index token xs.head? := by
      cases xs with
      | nil => exact Run.step_congr_next (h token rfl) _ _
      | cons => rfl
    have hl : ∀ token ∈ xs.getLast?, token.kind ≠ .function := by
      intro t ht
      refine h t ?_
      cases xs with
      | nil => simp at ht
      | cons => simpa [List.getLast?_cons_cons] using ht
    rw [List.cons_append, runTokens_cons, runTokens_cons, hs, bind_assoc]
    refine bind_congr fun run => ?_
    rw [ih hl, List.length_cons, Nat.add_right_comm, Nat.add_assoc]

@[simp] theorem runTokens_singleton (token : Token) (index : Nat) :
    runTokens registry store run index [token] = run.step registry store index token none := by
  rw [runTokens_cons, List.head?_nil]
  cases run.step registry store index token none <;> rfl

end Tokens

/-! ## Reading one token -/

namespace Run

variable {registry : Registry} {store : Store} {run : Run} {index : Nat} {next : Option Token}
  {name : String} {op : Operation}

theorem step_literal {text : String} {value : Float} (hp : run.previous.expectsOperand = true)
    (h : Number.read? text.toList = some value) :
    run.step registry store index ⟨.literal, text⟩ next =
      .ok (run.pushOperand (.literal value) .literal) := by
  simp [step, readLiteral, Reading.not_completesOperand_of_expectsOperand hp, h]

theorem step_var (hp : run.previous.expectsOperand = true) :
    run.step registry store index ⟨.var, name⟩ next = .ok (run.readVariable store name) := by
  simp [step, Reading.not_completesOperand_of_expectsOperand hp]

theorem step_function (hp : run.previous.expectsOperand = true) {token : Token}
    (ht : token.isSymbol Name.callOpen = true) (h : registry.find? name .function = some op) :
    run.step registry store index ⟨.function, name⟩ (some token) =
      .ok (run.pushFrame op .function) := by
  simp [step, readFunction, Reading.not_completesOperand_of_expectsOperand hp, ht, h]

theorem step_callOpen (hp : run.previous = .function) :
    run.step registry store index ⟨.bracket, "("⟩ next =
      .ok { run with previous := .callOpen } := by
  simp [step, readBracket, hp, Reading.completesOperand, Token.isSymbol, Name.callOpen]

theorem step_openBracket (hp : run.previous.expectsOperand = true)
    (h : registry.bracket? name = some op) (hk : op.kind = .openBracket) :
    run.step registry store index ⟨.bracket, name⟩ next =
      .ok (run.pushFrame op .openBracket) := by
  have hf : run.previous ≠ .function := by
    rintro hf
    simp [hf, Reading.expectsOperand] at hp
  simp [step, readBracket, Reading.not_completesOperand_of_expectsOperand hp, hf, h, hk]

theorem step_closeBracket (hp : run.previous.completesOperand = true)
    (h : registry.bracket? name = some op) (hk : op.kind = .closeBracket) :
    run.step registry store index ⟨.bracket, name⟩ next = run.close ⟨.bracket, name⟩ op.opener? := by
  have hf : run.previous ≠ .function := by
    rintro hf
    simp [hf, Reading.completesOperand] at hp
  simp [step, readBracket, Token.startsOperand, hf, h, hk]

/-- The parenthesis that closes a call is no opening bracket, so it closes. -/
theorem step_callClose (hc : ∀ op, registry.bracket? ")" = some op → op.kind ≠ .openBracket)
    (store : Store) (run : Run) (index : Nat) (next : Option Token) :
    ∃ opener, run.step registry store index ⟨.bracket, ")"⟩ next =
      run.close ⟨.bracket, ")"⟩ opener := by
  have hs : Token.isSymbol ⟨.bracket, ")"⟩ Name.callOpen = false := rfl
  cases h : registry.bracket? ")" with
  | none => exact ⟨none, by simp [step, readBracket, Token.startsOperand, hs, h]⟩
  | some op => exact ⟨op.opener?, by simp [step, readBracket, Token.startsOperand, hs, h, hc op h]⟩

theorem step_separator {text : String} :
    run.step registry store index ⟨.separator, text⟩ next = run.separate := by
  simp [step, Token.startsOperand]

theorem step_prefixOp (hp : run.previous.expectsOperand = true)
    (h : registry.find? name .prefixOp = some op) :
    run.step registry store index ⟨.operator, name⟩ next = .ok (run.pushFrame op .prefixOp) := by
  simp [step, readOperator, Token.startsOperand, hp, h]

theorem step_binary (hp : run.previous.completesOperand = true)
    (h : registry.find? name .binary = some op) :
    run.step registry store index ⟨.operator, name⟩ next =
      run.unwind (fun pending => pending.firesBefore op) >>= fun run =>
        .ok (run.pushFrame op .binary) := by
  have he := Reading.not_expectsOperand_of_completesOperand hp
  simp only [step, Token.startsOperand, readOperator, readInfixOrPostfix, he, hp, h, and_false,
    if_false, if_true, Bool.false_eq_true]
  rfl

theorem step_postfixOp (hp : run.previous.completesOperand = true)
    (hb : registry.find? name .binary = none) (h : registry.find? name .postfixOp = some op) :
    run.step registry store index ⟨.operator, name⟩ next =
      run.workspace.run op >>= fun workspace =>
        .ok { run with workspace, previous := .postfixOp } := by
  have he := Reading.not_expectsOperand_of_completesOperand hp
  simp only [step, Token.startsOperand, readOperator, readInfixOrPostfix, he, hp, hb, h, and_false,
    if_false, if_true, Bool.false_eq_true]
  rfl

/-! ## Ending a scope -/

variable {frame : Frame} {frames : List Frame} {x : Except EvalError Workspace}
  {previous : Reading} {token : Token}

theorem separate_of_unwindScope (hk : frame.operation.kind = .function)
    (h : run.unwindScope = x >>= fun w => .ok ⟨frame :: frames, w, previous⟩) :
    run.separate = x >>= fun w => .ok ⟨frame :: frames, w, .separator⟩ := by
  rw [separate, h, bind_assoc]
  refine bind_congr fun w => ?_
  simp [hk, pure, Except.pure]

theorem close_call (hk : frame.operation.kind = .function)
    (ht : token.isSymbol Name.callClose = true) (opener : Option String)
    (h : run.unwindScope = x >>= fun w => .ok ⟨frame :: frames, w, previous⟩) :
    run.close token opener =
      x >>= fun w => frame.fire w >>= fun w => .ok ⟨frames, w, .callClose⟩ := by
  rw [close, h, bind_assoc]
  refine bind_congr fun w => ?_
  simp [hk, ht, pure, Except.pure]

theorem close_group (hk : frame.operation.kind = .openBracket)
    (h : run.unwindScope = x >>= fun w => .ok ⟨frame :: frames, w, previous⟩) :
    run.close token (some frame.operation.name) =
      x >>= fun w => frame.fire w >>= fun w => .ok ⟨frames, w, .closeBracket⟩ := by
  rw [close, h, bind_assoc]
  refine bind_congr fun w => ?_
  simp [hk, pure, Except.pure]

end Run

end Abacus
