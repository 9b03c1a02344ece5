import Abacus.Variables.Bindings

/-!
# Effects on variables

What an operator does with its operands: it may read them, write to those that are variables, and
fail. What an effect did to the variables before it failed stays done.

* `read_of_value_eq_ok`, `read_of_value_eq_error`: reading gives the value of an operand, or the
  reason why it has none, and changes nothing;
* `assign_literal`, `step_literal`: only a variable can be written to.
-/

namespace Abacus

/-- A computation on the variables of one evaluation, which may fail. -/
abbrev Effect := EStateM EvalError Bindings

/-- What an operator does with one operand. -/
abbrev UnaryAction := Operand → Effect Float

/-- What an operator does with a left and a right operand. -/
abbrev BinaryAction := Operand → Operand → Effect Float

namespace Effect

/-- An outcome that does not depend on the variables. -/
def ofExcept {α : Type} (outcome : Except EvalError α) : Effect α := fun bindings =>
  match outcome with
  | .ok value => .ok value bindings
  | .error error => .error error bindings

/-- Fails. -/
def fail {α : Type} (error : EvalError) : Effect α :=
  ofExcept (.error error)

/-- The number that an operand stands for. -/
def read (operand : Operand) : Effect Float := fun bindings =>
  ofExcept (bindings.value operand) bindings

/-- Gives a variable a value. -/
def write (id : VarId) (value : Float) : Effect Unit := fun bindings =>
  .ok () (bindings.set id value)

/-- Reads the operand and applies a function to it. -/
def compute (f : Float → Float) : UnaryAction := fun operand => do
  let a ← read operand
  return f a

/-- Reads the left operand, then the right one, and applies a function to both. -/
def compute₂ (f : Float → Float → Float) : BinaryAction := fun left right => do
  let a ← read left
  let b ← read right
  return f a b

/-- Gives the left operand, which has to be a variable, the value of the right one. -/
def assign (name : String) : BinaryAction
  | .literal _, _ => fail (.notAssignable name)
  | .var id, right => do
    let value ← read right
    write id value
    return value

/-- Adds an amount to an operand, which has to be a variable, and returns its old and new value. -/
def step (name : String) (amount : Float) : Operand → Effect (Float × Float)
  | .literal _ => fail (.notAVariable name)
  | .var id => do
    let before ← read (.var id)
    let after := before + amount
    write id after
    return (before, after)

/-- Adds an amount to a variable and returns its old value. -/
def stepAfter (name : String) (amount : Float) : UnaryAction := fun operand =>
  Prod.fst <$> step name amount operand

/-- Adds an amount to a variable and returns its new value. -/
def stepBefore (name : String) (amount : Float) : UnaryAction := fun operand =>
  Prod.snd <$> step name amount operand

theorem read_of_value_eq_ok {operand : Operand} {bindings : Bindings} {value : Float}
    (h : bindings.value operand = .ok value) : read operand bindings = .ok value bindings := by
  simp [read, ofExcept, h]

theorem read_of_value_eq_error {operand : Operand} {bindings : Bindings} {error : EvalError}
    (h : bindings.value operand = .error error) :
    read operand bindings = .error error bindings := by
  simp [read, ofExcept, h]

@[simp] theorem assign_literal (name : String) (value : Float) (right : Operand) :
    assign name (.literal value) right = fail (.notAssignable name) := rfl

@[simp] theorem step_literal (name : String) (amount value : Float) :
    step name amount (.literal value) = fail (.notAVariable name) := rfl

end Effect

end Abacus
