import Abacus.Operation.Basic

/-!
# Applying an operation

An operation takes its operands from the top of a stack and puts a literal in their place. Nothing
happens when there are too few; when the action of the operation fails, its operands are gone.

* `apply_of_lt_demand`: too few operands are an error that changes nothing;
* `operands_settle`: an action replaces its operands by its result, or leaves the ones below them.
-/

namespace Abacus

/-- The operands that wait for an operation and the variables of the evaluation. -/
structure Workspace where
  /-- The waiting operands, the last one first. -/
  operands : List Operand
  /-- The variables. -/
  bindings : Bindings
deriving DecidableEq

namespace Workspace

/-- No operands and no variables. -/
def empty : Workspace := ⟨[], ∅⟩

instance : EmptyCollection Workspace := ⟨empty⟩

instance : Inhabited Workspace := ⟨empty⟩

/-- Adds an operand on top of the others. -/
def push (w : Workspace) (operand : Operand) : Workspace :=
  { w with operands := operand :: w.operands }

/-- Runs an action above the operands `below`: its result is put on top of them. -/
def settle (below : List Operand) (action : Effect Float) (bindings : Bindings) :
    EStateM.Result EvalError Workspace Unit :=
  match action bindings with
  | .ok value bindings => .ok () ⟨.literal value :: below, bindings⟩
  | .error error bindings => .error error ⟨below, bindings⟩

end Workspace

namespace Operation

/-- The error of an operation that finds too few operands. -/
def shortage (op : Operation) (found : Nat) : EvalError :=
  .insufficientOperands op.name op.demand found

/-- Applies an operation to the operands on top. The first operand pushed is the left one, or the
first argument; a function reads all its arguments, from the first, before its body runs. -/
def apply (op : Operation) : EStateM EvalError Workspace Unit := fun w =>
  match op.role, w.operands with
  | .binary _ _ action, right :: left :: below =>
    Workspace.settle below (action left right) w.bindings
  | .prefixOp _ action, operand :: below => Workspace.settle below (action operand) w.bindings
  | .postfixOp action, operand :: below => Workspace.settle below (action operand) w.bindings
  | .function arity body, operands =>
    if arity ≤ operands.length then
      let arguments := (operands.take arity).reverse.mapM w.bindings.value
      Workspace.settle (operands.drop arity) (.ofExcept (arguments >>= body)) w.bindings
    else .error (op.shortage operands.length) w
  | .openBracket (some transform), operand :: below =>
    Workspace.settle below (transform operand) w.bindings
  | .openBracket none, _ :: _ => .ok () w
  | .closeBracket _, _ => .ok () w
  | _, operands => .error (op.shortage operands.length) w

variable {op : Operation} {w : Workspace}

/-- An operation that finds too few operands changes nothing. -/
theorem apply_of_lt_demand (h : w.operands.length < op.demand) :
    op.apply w = .error (op.shortage w.operands.length) w := by
  obtain ⟨name, role⟩ := op
  obtain ⟨operands, bindings⟩ := w
  cases role with
  | binary => match operands, h with
    | [], _ | [_], _ => rfl
    | _ :: _ :: _, h =>
      simp only [demand, Role.demand, List.length_cons] at h
      omega
  | prefixOp | postfixOp => match operands, h with
    | [], _ => rfl
    | _ :: _, h => simp [demand, Role.demand] at h
  | function arity body =>
    simp only [demand, Role.demand] at h
    simp [apply, Nat.not_le.2 h]
  | openBracket transform => match operands, h with
    | [], _ => cases transform <;> rfl
    | _ :: _, h => simp [demand, Role.demand] at h
  | closeBracket => simp [demand, Role.demand] at h

/-- What an action leaves on the stack: its result on top of `below`, or `below` alone. -/
theorem operands_settle (below : List Operand) (action : Effect Float) (bindings : Bindings) :
    match Workspace.settle below action bindings with
    | .ok _ w => ∃ value, w.operands = .literal value :: below
    | .error _ w => w.operands = below := by
  unfold Workspace.settle
  cases action bindings with
  | ok value bindings => exact ⟨value, rfl⟩
  | error error bindings => rfl

end Operation

end Abacus
