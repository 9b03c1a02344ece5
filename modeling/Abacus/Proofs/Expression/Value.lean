import Abacus.Proofs.Evaluation.Unwinding
import Abacus.Proofs.Expression.Tree

/-!
# The value of a tree on the stack

`Expr.settle` puts what an expression comes to on top of the operands of a workspace. It puts the
parts there and then applies the operation, as a run does (`settle_prefixOp`, `settle_binary`,
`settle_group`, `settle_call`).
-/

namespace Abacus

open Abacus.Expr

/-- Puts the result of an effect on top of the operands `below`. -/
def Effect.onto (effect : Effect Operand) (below : List Operand) (bindings : Bindings) :
    Except EvalError Workspace :=
  match effect bindings with
  | .ok operand bindings => .ok ⟨operand :: below, bindings⟩
  | .error error _ => .error error

theorem Effect.bind_onto {α : Type} (x : Effect α) (f : α → Effect Operand) (below : List Operand)
    (bindings : Bindings) :
    (x >>= f).onto below bindings =
      match x bindings with
      | .ok a bindings => (f a).onto below bindings
      | .error error _ => .error error := by
  simp only [onto, bind, EStateM.bind]
  cases x bindings <;> rfl

/-- The result of an action as a literal is what applying an operation leaves. -/
theorem Effect.literal_onto (action : Effect Float) (below : List Operand) (bindings : Bindings) :
    Effect.onto (do return .literal (← action)) below bindings =
      match Workspace.settle below action bindings with
      | .ok _ w => .ok w
      | .error error _ => .error error := by
  rw [bind_onto, Workspace.settle]
  cases action bindings <;> rfl

/-- Reading operands one after the other changes nothing. -/
theorem Effect.mapM_read (operands : List Operand) (bindings : Bindings) :
    operands.mapM Effect.read bindings = Effect.ofExcept (operands.mapM bindings.value) bindings := by
  induction operands with
  | nil => rfl
  | cons operand rest ih =>
    rw [List.mapM_cons, List.mapM_cons]
    simp only [bind, EStateM.bind, Effect.read]
    cases bindings.value operand with
    | error => rfl
    | ok value =>
      simp only [Effect.ofExcept, ih, Except.bind]
      cases rest.mapM bindings.value <;> rfl

namespace Expr

/-- Puts what an expression comes to on the stack. -/
def settle (store : Store) (e : Expr) (w : Workspace) : Except EvalError Workspace :=
  (e.operand store).onto w.operands w.bindings

/-- Puts what arguments come to on the stack, the last on top. -/
def settleArguments (store : Store) (arguments : List Expr) (w : Workspace) :
    Except EvalError Workspace :=
  match argumentOperands store arguments w.bindings with
  | .ok operands bindings => .ok ⟨operands.reverse ++ w.operands, bindings⟩
  | .error error _ => .error error

variable {store : Store} {w : Workspace}

theorem length_operands_of_settle {e : Expr} {v : Workspace} (h : e.settle store w = .ok v) :
    v.operands.length = w.operands.length + 1 := by
  unfold settle Effect.onto at h
  split at h
  · rw [← Except.ok.inj h, List.length_cons]
  · cases h

theorem settleArguments_nil : settleArguments store [] w = .ok w := rfl

theorem settleArguments_cons (argument : Expr) (rest : List Expr) :
    settleArguments store (argument :: rest) w =
      argument.settle store w >>= settleArguments store rest := by
  simp only [settleArguments, settle, Effect.onto, argumentOperands, bind, EStateM.bind,
    Except.bind]
  cases argument.operand store w.bindings with
  | error => rfl
  | ok first bindings =>
    dsimp only
    cases argumentOperands store rest bindings <;> simp [pure, EStateM.pure]

theorem settle_prefixOp (name : String) (priority : Int) (action : UnaryAction) (operand : Expr) :
    (prefixOp name priority action operand).settle store w =
      operand.settle store w >>= fun w => w.run ⟨name, .prefixOp priority action⟩ := by
  rw [settle, settle, Expr.operand, Effect.bind_onto, Effect.onto]
  cases operand.operand store w.bindings with
  | error => rfl
  | ok inner bindings => exact Effect.literal_onto _ _ _

theorem settle_postfixOp (operand : Expr) (name : String) (action : UnaryAction) :
    (postfixOp operand name action).settle store w =
      operand.settle store w >>= fun w => w.run ⟨name, .postfixOp action⟩ := by
  rw [settle, settle, Expr.operand, Effect.bind_onto, Effect.onto]
  cases operand.operand store w.bindings with
  | error => rfl
  | ok inner bindings => exact Effect.literal_onto _ _ _

theorem settle_group (opener : String) (transform : Option UnaryAction) (content : Expr)
    (closer : String) :
    (group opener transform content closer).settle store w =
      content.settle store w >>= fun w => w.run ⟨opener, .openBracket transform⟩ := by
  rw [settle, settle, Expr.operand, Effect.bind_onto, Effect.onto]
  cases content.operand store w.bindings with
  | error => rfl
  | ok inner bindings =>
    cases transform with
    | none => rfl
    | some action => exact Effect.literal_onto _ _ _

theorem settle_binary (left : Expr) (name : String) (priority : Int) (associativity : Associativity)
    (action : BinaryAction) (right : Expr) :
    (binary left name priority associativity action right).settle store w =
      left.settle store w >>= fun w => right.settle store w >>= fun w =>
        w.run ⟨name, .binary priority associativity action⟩ := by
  rw [settle, settle, Expr.operand, Effect.bind_onto, Effect.onto]
  cases left.operand store w.bindings with
  | error => rfl
  | ok a bindings =>
    show Effect.onto (right.operand store >>= _) w.operands bindings =
      right.settle store ⟨a :: w.operands, bindings⟩ >>= _
    rw [settle, Effect.bind_onto, Effect.onto]
    cases right.operand store bindings with
    | error => rfl
    | ok b bindings => exact Effect.literal_onto _ _ _

/-- A function that is applied reads its arguments from the first to the last. -/
theorem settle_call {name : String} {arity : Nat} {body : List Float → Except EvalError Float}
    (arguments : List Expr) :
    (call name arity body arguments).settle store w =
      settleArguments store arguments w >>=
        Frame.fire ⟨⟨name, .function arity body⟩, w.operands.length⟩ := by
  rw [settle, Expr.operand, Effect.bind_onto, settleArguments]
  cases h : argumentOperands store arguments w.bindings with
  | error => rfl
  | ok operands bindings =>
    have hs : (Operation.mk name (.function arity body)).isScope = true := rfl
    have hd : (Operation.mk name (.function arity body)).demand = arity := rfl
    simp only [ok_bind, Frame.fire, hs, hd, List.length_append, List.length_reverse,
      Nat.add_sub_cancel, true_and]
    by_cases hlt : operands.length < arity
    · simp only [hlt, if_true]
      rfl
    by_cases hgt : arity < operands.length
    · simp only [hlt, hgt, if_true, if_false]
      rfl
    obtain rfl : arity = operands.length := by omega
    simp only [hlt, if_false, Workspace.run, Operation.apply, List.length_append,
      List.length_reverse, Nat.le_add_right, if_true]
    rw [List.take_left' List.length_reverse, List.drop_left' List.length_reverse,
      List.reverse_reverse, Effect.bind_onto, Effect.mapM_read]
    cases operands.mapM bindings.value with
    | error => rfl
    | ok values => exact Effect.literal_onto _ _ _

end Expr

end Abacus
