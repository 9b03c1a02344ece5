import Abacus.Operation.Basic

/-!
# Functions as operations

A function on floats becomes an operation whose arity is the number of its arguments. Its result may
be a float or an outcome that may be an error.

* `arity?_ofFormula`: the arity is read off the type;
* `evaluate_nullary`, `evaluate_fallible`, `evaluate_cons`: the arguments are passed in call order.
-/

namespace Abacus

/-- Types of functions that take floats, one after the other, and return a float or fail. -/
class Formula (α : Type) where
  /-- The number of floats taken. -/
  arity : Nat
  /-- The function on a list of its arguments. A list that is too short is no expression. -/
  evaluate : α → List Float → Except EvalError Float

namespace Formula

/-- A float is a formula without arguments. -/
instance nullary : Formula Float where
  arity := 0
  evaluate value _ := .ok value

/-- So is an outcome. -/
instance fallible : Formula (Except EvalError Float) where
  arity := 0
  evaluate outcome _ := outcome

/-- One more argument. -/
instance succ {β : Type} [Formula β] : Formula (Float → β) where
  arity := arity β + 1
  evaluate
    | _, [] => .error .malformedExpression
    | f, argument :: rest => evaluate (f argument) rest

@[simp] theorem arity_nullary : arity Float = 0 := rfl

@[simp] theorem arity_fallible : arity (Except EvalError Float) = 0 := rfl

@[simp] theorem arity_succ {β : Type} [Formula β] : arity (Float → β) = arity β + 1 := rfl

@[simp] theorem evaluate_nullary (value : Float) (arguments : List Float) :
    evaluate value arguments = .ok value := rfl

@[simp] theorem evaluate_fallible (outcome : Except EvalError Float) (arguments : List Float) :
    evaluate outcome arguments = outcome := rfl

@[simp] theorem evaluate_cons {β : Type} [Formula β] (f : Float → β) (argument : Float)
    (rest : List Float) : evaluate f (argument :: rest) = evaluate (f argument) rest := rfl

end Formula

namespace Operation

/-- The function of a name and a formula. -/
def ofFormula {α : Type} [Formula α] (name : String) (formula : α) : Operation where
  name
  role := .function (Formula.arity α) (Formula.evaluate formula)

@[simp] theorem arity?_ofFormula {α : Type} [Formula α] (name : String) (formula : α) :
    (ofFormula name formula).arity? = some (Formula.arity α) := rfl

@[simp] theorem kind_ofFormula {α : Type} [Formula α] (name : String) (formula : α) :
    (ofFormula name formula).kind = .function := rfl

end Operation

end Abacus
