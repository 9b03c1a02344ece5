import Mathlib.Control.Monad.Basic
import Abacus.Proofs.Evaluation.Completion
import Abacus.Proofs.Library.Registered
import Abacus.Proofs.Registry.Consistency

/-!
# Expressions inside a scope

Tokens that have a value are read in the same way behind the beginning of a group or a call. The scope
waits outside of all that they make wait (`Run.inside`), and no token of theirs closes it or lets it go:
each that would is an error where nothing waits outside. The operands and the variables are the same all
along.

So all depends on what follows the tokens. The right bracket closes the group, and the value is the same
as without it (`evaluateTokens_enclose`); any other end is an error that names the scope
(`evaluateTokens_unbalanced`).

* `fireWhile_append`, `Run.unwind_inside`: what waits goes as it does without the scope;
* `Run.step_inside`, `runTokens_inside`: so it is with one token, and with all of them;
* `Run.step_congr_previous`: the first token is read as it is without the scope;
* `Begins.exists_run`: tokens behind a beginning, up to the end or to a bracket that closes.
-/

namespace Abacus

variable {registry : Registry} {store : Store} {outer : List Frame} {run run' : Run}

/-! ## What waits outside -/

/-- Pending operations go as far as they do without others outside of them, the first of which is not
ready. -/
theorem fireWhile_append {ready : Operation → Bool}
    (h : ∀ frame ∈ outer.head?, ready frame.operation = false) (frames : List Frame) (w : Workspace) :
    fireWhile ready (frames ++ outer) w =
      fireWhile ready frames w >>= fun result => .ok (result.1 ++ outer, result.2) := by
  induction frames generalizing w with
  | nil =>
    cases outer with
    | nil => rfl
    | cons frame outer =>
      rw [List.nil_append, fireWhile_cons, h frame rfl]
      rfl
  | cons frame frames ih =>
    rw [List.cons_append, fireWhile_cons, fireWhile_cons]
    split
    · rw [bind_assoc]
      exact bind_congr fun w => ih w
    · rfl

namespace Run

/-- The run with other operations waiting outside of what waits. -/
def inside (run : Run) (outer : List Frame) : Run :=
  { run with frames := run.frames ++ outer }

@[simp] theorem workspace_inside (run : Run) (outer : List Frame) :
    (run.inside outer).workspace = run.workspace := rfl

theorem unwind_inside {ready : Operation → Bool}
    (h : ∀ frame ∈ outer.head?, ready frame.operation = false) (run : Run) :
    (run.inside outer).unwind ready = run.unwind ready >>= fun run => .ok (run.inside outer) := by
  rw [unwind, unwind, bind_assoc]
  refine (congrArg (· >>= _) (fireWhile_append h run.frames run.workspace)).trans ?_
  rw [bind_assoc]
  exact bind_congr fun _ => rfl

/-- Where pending operators have gone, a scope waits first. -/
theorem isScope_of_unwindScope (h : run.unwindScope = .ok run') :
    ∀ frame ∈ run'.frames.head?, frame.operation.isScope = true := by
  obtain ⟨⟨frames, w⟩, hf, h⟩ := bind_eq_ok.1 h
  obtain rfl := Except.ok.inj h
  simpa using (fireWhile_eq_ok hf).2

section Scope

variable (hs : ∀ frame ∈ outer.head?, frame.operation.isScope = true)
include hs

theorem unwindScope_inside (h : run.unwindScope = .ok run') :
    (run.inside outer).unwindScope = .ok (run'.inside outer) := by
  have hu : (run.inside outer).unwindScope = run.unwindScope >>= fun run => .ok (run.inside outer) :=
    unwind_inside (fun frame hf => by simp [hs frame hf]) run
  rw [hu, h, ok_bind]

/-! ## Reading inside a scope -/

/-- A separator stands in a call of the run itself. -/
theorem separate_inside (h : run.separate = .ok run') :
    (run.inside outer).separate = .ok (run'.inside outer) := by
  obtain ⟨⟨frames, w, previous⟩, hu, h⟩ := bind_eq_ok.1 h
  have hu := unwindScope_inside hs hu
  split at h
  · rename_i frame frames hf
    obtain rfl : _ = frame :: frames := hf
    split at h
    · rename_i hk
      obtain rfl := Except.ok.inj h
      exact separate_of_unwindScope (x := .ok w) hk hu
    · cases h
  · cases h

/-- A bracket closes a scope of the run itself. -/
theorem close_inside {token : Token} {opener : Option String}
    (h : run.close token opener = .ok run') :
    (run.inside outer).close token opener = .ok (run'.inside outer) := by
  obtain ⟨settled, hu, hrest⟩ := bind_eq_ok.1 h
  -- What is closed waits first in the run, so it is none of the scopes outside.
  have hscope := isScope_of_unwindScope hu
  have hclose : settled.close token opener = .ok run' := by
    rw [close, unwindScope_of_head hscope]
    exact hrest
  have hu := unwindScope_inside hs hu
  obtain ⟨frames, w, previous⟩ := settled
  obtain ⟨frame, frames, w', rfl, hw, ⟨hk, ht, rfl⟩ | ⟨hk, rfl, rfl⟩⟩ := close_eq_ok hscope hclose
  · rw [close_call (x := .ok w) hk ht opener hu, ok_bind, hw]
    rfl
  · rw [close_group (x := .ok w) hk hu, ok_bind, hw]
    rfl

variable {registry : Registry} {store : Store} {index : Nat} {token : Token} {next : Option Token}

theorem readBracket_inside (h : run.readBracket registry token = .ok run') :
    (run.inside outer).readBracket registry token = .ok (run'.inside outer) := by
  unfold readBracket at h ⊢
  split at h
  · rename_i hc
    refine (if_pos hc).trans ?_
    rw [← Except.ok.inj h]
    rfl
  · rename_i hc
    refine (if_neg hc).trans ?_
    cases hb : registry.bracket? token.text with
    | some op =>
      simp only [hb] at h ⊢
      split at h
      · rename_i hk
        rw [if_pos hk, ← Except.ok.inj h]
        rfl
      · rename_i hk
        rw [if_neg hk]
        exact close_inside hs h
    | none =>
      simp only [hb] at h ⊢
      split at h
      · cases h
      · rename_i ht
        rw [if_neg ht]
        exact close_inside hs h

theorem readInfixOrPostfix_inside {name : String}
    (h : run.readInfixOrPostfix registry name = .ok run') :
    (run.inside outer).readInfixOrPostfix registry name = .ok (run'.inside outer) := by
  unfold readInfixOrPostfix at h ⊢
  cases hb : registry.find? name .binary with
  | some op =>
    simp only [hb] at h ⊢
    -- A scope that waits outside goes before no operator.
    have hready : ∀ frame ∈ outer.head?, frame.operation.firesBefore op = false :=
      fun frame hf => Operation.firesBefore_of_isScope (hs frame hf) op
    obtain ⟨settled, hu, h⟩ := bind_eq_ok.1 h
    rw [unwind_inside hready run, hu, ok_bind, ← Except.ok.inj h]
    rfl
  | none =>
    simp only [hb] at h ⊢
    cases hp : registry.find? name .postfixOp with
    | some op =>
      simp only [hp] at h ⊢
      obtain ⟨w, hw, h⟩ := bind_eq_ok.1 h
      rw [workspace_inside, hw, ok_bind, ← Except.ok.inj h]
      rfl
    | none =>
      simp only [hp] at h
      cases h

theorem readOperator_inside {name : String} (h : run.readOperator registry name = .ok run') :
    (run.inside outer).readOperator registry name = .ok (run'.inside outer) := by
  unfold readOperator at h ⊢
  split at h
  · rename_i hp
    refine (if_pos hp).trans ?_
    cases ho : registry.find? name .prefixOp with
    | some op =>
      simp only [ho] at h ⊢
      rw [← Except.ok.inj h]
      rfl
    | none =>
      simp only [ho] at h
      cases h
  · rename_i hp
    refine (if_neg hp).trans ?_
    split at h
    · rename_i hc
      refine (if_pos hc).trans ?_
      exact readInfixOrPostfix_inside hs h
    · cases h

/-- A token that is read without the scope is read in the same way inside of it, wherever it stands. -/
theorem step_inside (h : run.step registry store index token next = .ok run') (index' : Nat) :
    (run.inside outer).step registry store index' token next = .ok (run'.inside outer) := by
  obtain ⟨kind, text⟩ := token
  unfold step at h ⊢
  split at h
  · cases h
  rename_i hstart
  refine (if_neg hstart).trans ?_
  cases kind with
  | separator => exact separate_inside hs h
  | bracket => exact readBracket_inside hs h
  | operator => exact readOperator_inside hs h
  | var =>
    rw [← Except.ok.inj h]
    rfl
  | literal =>
    simp only [readLiteral] at h ⊢
    cases hv : Number.read? text.toList with
    | some value =>
      simp only [hv] at h ⊢
      rw [← Except.ok.inj h]
      rfl
    | none =>
      simp only [hv] at h
      cases h
  | function =>
    simp only [readFunction] at h ⊢
    split at h
    · rename_i hn
      rw [if_pos hn]
      cases ho : registry.find? text .function with
      | some op =>
        simp only [ho] at h ⊢
        rw [← Except.ok.inj h]
        rfl
      | none =>
        simp only [ho] at h
        cases h
    · cases h

end Scope

/-! ## The beginning of a scope -/

/-- To the next token, all readings after which an operand is due are the same. -/
theorem step_congr_previous (run : Run) {index : Nat} {token : Token} {next : Option Token}
    {reading : Reading} (hp : run.previous.expectsOperand = true) (hr : reading.expectsOperand = true) :
    { run with previous := reading }.step registry store index token next =
      run.step registry store index token next := by
  obtain ⟨frames, w, previous⟩ := run
  obtain ⟨kind, text⟩ := token
  -- A parenthesis is read otherwise after the name of a function, where no operand is due.
  have hfunction : ∀ reading : Reading, reading.expectsOperand = true → reading ≠ .function := by
    rintro _ he rfl
    cases he
  have hpf := hfunction _ hp
  have hrf := hfunction _ hr
  have hpc := Reading.not_completesOperand_of_expectsOperand hp
  have hrc := Reading.not_completesOperand_of_expectsOperand hr
  have hclose : ∀ token opener, Run.close ⟨frames, w, reading⟩ token opener =
      Run.close ⟨frames, w, previous⟩ token opener := by
    intro token opener
    simp only [close, unwindScope, unwind, bind_assoc]
    rfl
  cases kind with
  | separator =>
    simp only [step, hpc, hrc, separate, unwindScope, unwind, bind_assoc]
    rfl
  | bracket => simp [step, readBracket, hpc, hrc, hpf, hrf, hclose, pushFrame]
  | operator => simp [step, readOperator, hpc, hrc, hp, hr, pushFrame]
  | literal => simp [step, readLiteral, hpc, hrc, pushOperand]
  | var => simp [step, readVariable, hpc, hrc]
  | function => simp [step, readFunction, hpc, hrc, pushFrame]

end Run

/-- Tokens that are read without the scope are read in the same way inside of it, wherever they stand. -/
theorem runTokens_inside (hs : ∀ frame ∈ outer.head?, frame.operation.isScope = true)
    {tokens : List Token} {index : Nat} (h : runTokens registry store run index tokens = .ok run')
    (index' : Nat) :
    runTokens registry store (run.inside outer) index' tokens = .ok (run'.inside outer) := by
  induction tokens generalizing run index index' with
  | nil =>
    obtain rfl := Except.ok.inj h
    rfl
  | cons token tokens ih =>
    rw [runTokens_cons] at h ⊢
    obtain ⟨middle, hstep, h⟩ := bind_eq_ok.1 h
    rw [Run.step_inside hs hstep, ok_bind]
    exact ih h _

/-- The name of a function looks ahead, so tokens that are read do not end in one. -/
theorem kind_ne_function_of_runTokens {tokens : List Token} {index : Nat}
    (h : runTokens registry store run index tokens = .ok run') :
    ∀ token ∈ tokens.getLast?, token.kind ≠ .function := by
  induction tokens generalizing run index with
  | nil => simp
  | cons token tokens ih =>
    rw [runTokens_cons] at h
    obtain ⟨middle, hstep, h⟩ := bind_eq_ok.1 h
    cases tokens with
    | nil =>
      rintro _ ⟨⟩ hk
      obtain ⟨kind, text⟩ := token
      obtain rfl : kind = .function := hk
      simp only [Run.step, Run.readFunction, List.head?_nil, Option.any_none] at hstep
      split at hstep <;> cases hstep
    | cons next tokens =>
      rw [List.getLast?_cons_cons]
      exact ih h

/-! ## The ends of a run -/

namespace Run

variable {frame : Frame} {frames : List Frame} {w : Workspace} {previous : Reading} {token : Token}
  {opener : Option String}

/-- A run ends where nothing waits for its one operand, with the value of it. -/
theorem finish_of_unwindScope {operand : Operand} {bindings : Bindings} {value : Float}
    (h : run.unwindScope = .ok ⟨[], ⟨[operand], bindings⟩, previous⟩)
    (hv : bindings.value operand = .ok value) : run.finish = .ok (value, bindings) := by
  rw [finish, h, ok_bind]
  simp only [hv, ok_bind]
  rfl

/-- A run does not end in a group. -/
theorem finish_of_group (h : run.unwindScope = .ok ⟨frame :: frames, w, previous⟩)
    (hk : frame.operation.kind = .openBracket) :
    run.finish = .error (.unbalancedBrackets frame.operation.name) := by
  rw [finish, h, ok_bind]
  simp only [hk, reduceCtorEq, if_false]
  rfl

/-- A run does not end in a call. -/
theorem finish_of_call (h : run.unwindScope = .ok ⟨frame :: frames, w, previous⟩)
    (hk : frame.operation.kind = .function) :
    run.finish = .error (.incompleteCall frame.operation.name) := by
  rw [finish, h, ok_bind]
  simp only [hk, if_true]
  rfl

/-- No bracket closes where nothing is open. -/
theorem close_of_nil (h : run.unwindScope = .ok ⟨[], w, previous⟩) :
    run.close token opener = .error (.mismatchedBracket token.text) := by
  rw [close, h, ok_bind]
  rfl

/-- No bracket but one that belongs to it closes a group. -/
theorem close_of_group (h : run.unwindScope = .ok ⟨frame :: frames, w, previous⟩)
    (hk : frame.operation.kind = .openBracket) (ho : opener ≠ some frame.operation.name) :
    run.close token opener = .error (.mismatchedBracket frame.operation.name) := by
  rw [close, h, ok_bind]
  simp only [hk, ho, reduceCtorEq, false_and, and_false, if_false]
  rfl

/-- No bracket but the right parenthesis closes a call. -/
theorem close_of_call (h : run.unwindScope = .ok ⟨frame :: frames, w, previous⟩)
    (hk : frame.operation.kind = .function) (ht : token.isSymbol Name.callClose = false) :
    run.close token opener = .error (.mismatchedBracket frame.operation.name) := by
  rw [close, h, ok_bind]
  simp only [hk, ht, reduceCtorEq, false_and, and_false, if_false, Bool.false_eq_true]
  rfl

end Run

/-! ## Beginnings -/

/-- Whether an evaluation expects an operand after the tokens, and has nothing but the frames before
it, which begin with a scope. -/
structure Begins (registry : Registry) (store : Store) (before : List Token) (outer : List Frame) :
    Prop where
  /-- What waits first encloses the operand. -/
  isScope : ∀ frame ∈ outer.head?, frame.operation.isScope = true
  /-- What follows is read behind the frames. -/
  exists_reading : ∃ reading : Reading, reading.expectsOperand = true ∧ ∀ rest : List Token,
    runTokens registry store .start 0 (before ++ rest) =
      runTokens registry store ⟨outer, ∅, reading⟩ before.length rest

namespace Begins

variable {name : String} {op : Operation}

theorem nil : Begins registry store [] [] :=
  ⟨by simp, .binary, rfl, fun _ => rfl⟩

theorem group (hreach : registry.Reachable) (h : registry.find? name .openBracket = some op) :
    Begins registry store [⟨.bracket, name⟩] [⟨op, 0⟩] := by
  have hk := (hreach.find?_eq_some h).2.1
  refine ⟨?_, .openBracket, rfl, fun rest => ?_⟩
  · rintro _ ⟨⟩
    simp [Operation.isScope, hk]
  · rw [List.singleton_append, runTokens_cons,
      Run.step_openBracket rfl (hreach.bracket?_of_find? h rfl) hk, ok_bind]
    rfl

theorem call (hreach : registry.Reachable) (h : registry.find? name .function = some op) :
    Begins registry store [⟨.function, name⟩, ⟨.bracket, "("⟩] [⟨op, 0⟩] := by
  have hk := (hreach.find?_eq_some h).2.1
  refine ⟨?_, .callOpen, rfl, fun rest => ?_⟩
  · rintro _ ⟨⟩
    simp [Operation.isScope, hk]
  · rw [List.cons_append, List.singleton_append, runTokens_cons, List.head?_cons,
      Run.step_function rfl rfl h, ok_bind, runTokens_cons, Run.step_callOpen rfl, ok_bind]
    rfl

/-- Tokens with a value are read behind a beginning. When the operators that wait for it have gone, the
one operand inside the scope has the value. The end of the tokens comes then, or a bracket that closes. -/
theorem exists_run {before tokens : List Token} (hb : Begins registry store before outer)
    (hreach : registry.Reachable) {value : Float} {bindings : Bindings}
    (h : runAll registry store tokens = .ok (value, bindings)) :
    ∃ (run : Run) (operand : Operand),
      run.unwindScope = .ok ⟨outer, ⟨[operand], bindings⟩, run.previous⟩ ∧
      bindings.value operand = .ok value ∧
      runAll registry store (before ++ tokens) = run.finish ∧
      ∀ closer op, registry.find? closer .closeBracket = some op →
        runAll registry store (before ++ tokens ++ [⟨.bracket, closer⟩]) =
          run.close ⟨.bracket, closer⟩ op.opener? >>= Run.finish := by
  obtain ⟨hs, reading, hr, hbefore⟩ := hb
  obtain ⟨run, hrun, hfinish⟩ := bind_eq_ok.1 h
  obtain ⟨hbalanced, -⟩ := readingsFrom_of_runTokens hreach .start hrun
  obtain ⟨operand, hunwind, hvalue⟩ := Run.unwindScope_of_finish hfinish
  have hinside : runTokens registry store ⟨outer, ∅, reading⟩ before.length tokens =
      .ok (run.inside outer) := by
    rw [← runTokens_inside hs hrun before.length]
    cases tokens with
    | nil =>
      -- Without tokens there is no value.
      obtain rfl := Except.ok.inj hrun
      cases hfinish
    | cons token tokens =>
      rw [runTokens_cons, runTokens_cons]
      exact congrArg (· >>= _) (Run.step_congr_previous (.inside .start outer) rfl hr)
  refine ⟨run.inside outer, operand, Run.unwindScope_inside hs hunwind, hvalue, ?_,
    fun closer op hc => ?_⟩
  · rw [runAll, hbefore, hinside, ok_bind]
  · have hp : (run.inside outer).previous.completesOperand = true :=
      hbalanced.completesOperand hfinish
    rw [runAll, List.append_assoc, hbefore, runTokens_append (kind_ne_function_of_runTokens hrun),
      hinside, ok_bind, runTokens_singleton,
      Run.step_closeBracket hp (hreach.bracket?_of_find? hc rfl) (hreach.find?_eq_some hc).2.1]

end Begins

/-! ## Enclosing an expression -/

/-- Tokens in a number of pairs of brackets. -/
def enclose (opener closer : String) (tokens : List Token) : Nat → List Token
  | 0 => tokens
  | pairs + 1 => ⟨.bracket, opener⟩ :: enclose opener closer tokens pairs ++ [⟨.bracket, closer⟩]

/-- A group that changes nothing has the value of the tokens in it, and their variables. -/
theorem runAll_group (hreach : registry.Reachable) {opener closer : String}
    (ho : registry.find? opener .openBracket = some (.openBracket opener))
    (hc : registry.find? closer .closeBracket = some (.closeBracket closer opener))
    {tokens : List Token} {value : Float} {bindings : Bindings}
    (h : runAll registry store tokens = .ok (value, bindings)) :
    runAll registry store (⟨.bracket, opener⟩ :: tokens ++ [⟨.bracket, closer⟩]) =
      .ok (value, bindings) := by
  obtain ⟨run, operand, hunwind, hvalue, -, hclose⟩ := (Begins.group hreach ho).exists_run hreach h
  have hfire : Frame.fire ⟨.openBracket opener, 0⟩ ⟨[operand], bindings⟩ = .ok ⟨[operand], bindings⟩ :=
    Frame.fire_of_isScope_of_eq rfl
  have hgroup : run.close ⟨.bracket, closer⟩ (some opener) =
      .ok ⟨[], ⟨[operand], bindings⟩, .closeBracket⟩ := by
    refine (Run.close_group (x := .ok ⟨[operand], bindings⟩) rfl hunwind).trans ?_
    rw [ok_bind, hfire, ok_bind]
  refine (hclose closer _ hc).trans ?_
  refine (congrArg (· >>= Run.finish) hgroup).trans ?_
  exact Run.finish_of_unwindScope (Run.unwindScope_of_head (by simp)) hvalue

/-- Brackets around tokens that have a value change neither the value nor the store, however many pairs
there are: a bracket that opens a group and leaves its value alone, and one that closes such a group. -/
theorem evaluateTokens_enclose (hreach : registry.Reachable) {opener closer : String}
    (ho : registry.find? opener .openBracket = some (.openBracket opener))
    (hc : registry.find? closer .closeBracket = some (.closeBracket closer opener))
    {tokens : List Token} {value : Float}
    (h : (evaluateTokens registry store tokens).result = .ok value) (pairs : Nat) :
    evaluateTokens registry store (enclose opener closer tokens pairs) =
      evaluateTokens registry store tokens := by
  obtain ⟨bindings, hr⟩ := exists_runAll h
  have henclose : runAll registry store (enclose opener closer tokens pairs) = .ok (value, bindings) := by
    induction pairs with
    | zero => exact hr
    | succ pairs ih => exact runAll_group hreach ho hc ih
  rw [evaluateTokens_of_ok henclose, evaluateTokens_of_ok hr]

/-- The variable in `((x=2))` is assigned to as in `x=2`. -/
theorem evaluateTokens_enclose_sample :
    let tokens : List Token := [⟨.var, "x"⟩, ⟨.operator, "="⟩, ⟨.literal, "2"⟩]
    enclose "(" ")" tokens 2 =
        [⟨.bracket, "("⟩, ⟨.bracket, "("⟩, ⟨.var, "x"⟩, ⟨.operator, "="⟩, ⟨.literal, "2"⟩,
          ⟨.bracket, ")"⟩, ⟨.bracket, ")"⟩] ∧
      (evaluateTokens Library.registry ∅ tokens).result = .ok 2 ∧
      evaluateTokens Library.registry ∅ (enclose "(" ")" tokens 2) =
        evaluateTokens Library.registry ∅ tokens := by
  intro tokens
  have hopen := (Library.find?_registry "(" .openBracket).trans rfl
  have hclose := (Library.find?_registry ")" .closeBracket).trans rfl
  have hvalue : (evaluateTokens Library.registry ∅ tokens).result = .ok 2 := by decide +kernel
  exact ⟨rfl, hvalue, evaluateTokens_enclose Library.reachable_registry hopen hclose hvalue 2⟩

/-! ## Unbalanced brackets -/

/-- Tokens that have a value have none behind a bracket or a call that is not closed, before a bracket
that nothing opened, and between two that do not belong together. The error names the scope that is
open, or else the bracket that closes, and the store is as it was. -/
theorem evaluateTokens_unbalanced (hreach : registry.Reachable) {tokens : List Token} {value : Float}
    (h : (evaluateTokens registry store tokens).result = .ok value) :
    (∀ b op, registry.find? b .openBracket = some op →
      evaluateTokens registry store (⟨.bracket, b⟩ :: tokens) =
        ⟨.error (.unbalancedBrackets b), store⟩) ∧
    (∀ f op, registry.find? f .function = some op →
      evaluateTokens registry store (⟨.function, f⟩ :: ⟨.bracket, "("⟩ :: tokens) =
        ⟨.error (.incompleteCall f), store⟩) ∧
    (∀ c op, registry.find? c .closeBracket = some op →
      evaluateTokens registry store (tokens ++ [⟨.bracket, c⟩]) =
        ⟨.error (.mismatchedBracket c), store⟩) ∧
    (∀ b op c op', registry.find? b .openBracket = some op →
      registry.find? c .closeBracket = some op' → op'.opener? ≠ some b →
      evaluateTokens registry store (⟨.bracket, b⟩ :: tokens ++ [⟨.bracket, c⟩]) =
        ⟨.error (.mismatchedBracket b), store⟩) ∧
    ∀ f op c op', registry.find? f .function = some op →
      registry.find? c .closeBracket = some op' → c ≠ ")" →
      evaluateTokens registry store
          (⟨.function, f⟩ :: ⟨.bracket, "("⟩ :: tokens ++ [⟨.bracket, c⟩]) =
        ⟨.error (.mismatchedBracket f), store⟩ := by
  obtain ⟨bindings, hr⟩ := exists_runAll h
  refine ⟨fun b op hb => ?_, fun f op hf => ?_, fun c op hc => ?_, fun b op c op' hb hc hne => ?_,
    fun f op c op' hf hc hne => ?_⟩
  · obtain ⟨rfl, hk, -⟩ := hreach.find?_eq_some hb
    obtain ⟨run, operand, hunwind, -, hend, -⟩ := (Begins.group hreach hb).exists_run hreach hr
    exact evaluateTokens_of_error (hend.trans (Run.finish_of_group hunwind hk))
  · obtain ⟨rfl, hk, -⟩ := hreach.find?_eq_some hf
    obtain ⟨run, operand, hunwind, -, hend, -⟩ := (Begins.call hreach hf).exists_run hreach hr
    exact evaluateTokens_of_error (hend.trans (Run.finish_of_call hunwind hk))
  · obtain ⟨run, operand, hunwind, -, -, hclose⟩ := Begins.nil.exists_run hreach hr
    have herror : run.close ⟨.bracket, c⟩ op.opener? = .error (.mismatchedBracket c) :=
      Run.close_of_nil hunwind
    refine evaluateTokens_of_error ((hclose c op hc).trans ?_)
    rw [herror, error_bind]
  · obtain ⟨rfl, hk, -⟩ := hreach.find?_eq_some hb
    obtain ⟨run, operand, hunwind, -, -, hclose⟩ := (Begins.group hreach hb).exists_run hreach hr
    refine evaluateTokens_of_error ((hclose c op' hc).trans ?_)
    rw [Run.close_of_group hunwind hk hne, error_bind]
  · obtain ⟨rfl, hk, -⟩ := hreach.find?_eq_some hf
    obtain ⟨run, operand, hunwind, -, -, hclose⟩ := (Begins.call hreach hf).exists_run hreach hr
    have hsymbol : Token.isSymbol ⟨.bracket, c⟩ Name.callClose = false :=
      Bool.eq_false_iff.2 fun ht => hne (Token.text_of_isSymbol ht)
    refine evaluateTokens_of_error ((hclose c op' hc).trans ?_)
    rw [Run.close_of_call hunwind hk hsymbol, error_bind]

/-- What becomes of `x=1+2` in brackets that are missing or do not belong together. -/
theorem evaluateTokens_unbalanced_sample :
    let extended := Library.registry.insert (.closeBracket "]" "[")
    let tokens : List Token := [⟨.var, "x"⟩, ⟨.operator, "="⟩, ⟨.literal, "1"⟩, ⟨.operator, "+"⟩,
      ⟨.literal, "2"⟩]
    (evaluateTokens extended ∅ tokens).result = .ok 3 ∧
      evaluateTokens extended ∅ (⟨.bracket, "("⟩ :: tokens) =
        ⟨.error (.unbalancedBrackets "("), ∅⟩ ∧
      evaluateTokens extended ∅ (⟨.function, "max"⟩ :: ⟨.bracket, "("⟩ :: tokens) =
        ⟨.error (.incompleteCall "max"), ∅⟩ ∧
      evaluateTokens extended ∅ (tokens ++ [⟨.bracket, "]"⟩]) =
        ⟨.error (.mismatchedBracket "]"), ∅⟩ ∧
      evaluateTokens extended ∅ (⟨.bracket, "("⟩ :: tokens ++ [⟨.bracket, "]"⟩]) =
        ⟨.error (.mismatchedBracket "("), ∅⟩ ∧
      evaluateTokens extended ∅
          (⟨.function, "max"⟩ :: ⟨.bracket, "("⟩ :: tokens ++ [⟨.bracket, "]"⟩]) =
        ⟨.error (.mismatchedBracket "max"), ∅⟩ := by
  intro extended tokens
  obtain ⟨hvalid, hfree, hvalue⟩ : Name.isValid .bracket "]" = true ∧
      Library.registry.collides (.closeBracket "]" "[") = false ∧
      (evaluateTokens extended ∅ tokens).result = .ok 3 := by
    decide +kernel
  have hregister : Library.registry.register (.closeBracket "]" "[") = .ok extended :=
    Registry.register_eq_ok_iff.2 ⟨hvalid, hfree, rfl⟩
  have hreach : extended.Reachable := Library.reachable_registry.register hregister
  have hother : ∀ name kind, name ≠ "]" → extended.find? name kind = Library.registry.find? name kind :=
    fun name kind hne => Registry.find?_insert.trans (if_neg fun h => hne h.1.symm)
  have hopen := (hother "(" .openBracket (by decide)).trans ((Library.find?_registry _ _).trans rfl)
  have hmax := (hother "max" .function (by decide)).trans ((Library.find?_registry _ _).trans rfl)
  have hclose : extended.find? "]" .closeBracket = some (.closeBracket "]" "[") :=
    Registry.find?_insert.trans (if_pos ⟨rfl, rfl⟩)
  obtain ⟨hgroup, hcall, hend, hmismatch, hmismatchCall⟩ := evaluateTokens_unbalanced hreach hvalue
  exact ⟨hvalue, hgroup "(" _ hopen, hcall "max" _ hmax, hend "]" _ hclose,
    hmismatch "(" _ "]" _ hopen hclose (by decide),
    hmismatchCall "max" _ "]" _ hmax hclose (by decide)⟩

end Abacus
