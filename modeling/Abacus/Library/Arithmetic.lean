import Abacus.Number.Parts
import Abacus.Number.Shortest
import Abacus.Operation.Formula

/-!
# Arithmetic

The four operations and the remainder, assignment, signs, steps, parentheses, and the functions
`max`, `min`, `abs` and `sqrt`. Assignment binds least and steps bind most.
-/

namespace Abacus.Library

/-- The operator that assigns the value on its right to the variable on its left. -/
def assignment : Operation where
  name := "="
  role := .binary 0 .right (Effect.assign "=")

/-- The operator before a variable that adds an amount and returns the new value. -/
def stepBefore (name : String) (amount : Float) : Operation where
  name
  role := .prefixOp 5 (Effect.stepBefore name amount)

/-- The operator after a variable that adds an amount and returns the old value. -/
def stepAfter (name : String) (amount : Float) : Operation where
  name
  role := .postfixOp (Effect.stepAfter name amount)

/-- The square root of a number that is not negative. -/
def squareRoot (x : Float) : Except EvalError Float :=
  if x < 0.0 then .error (.domain "sqrt" ("negative argument " ++ Number.shortest x))
  else .ok x.sqrt

/-- The operations of arithmetic. -/
def arithmetic : List Operation :=
  [.binary "+" 1 .left fun a b => a + b,
    .binary "-" 1 .left fun a b => a - b,
    .binary "*" 2 .left fun a b => a * b,
    .binary "/" 2 .left fun a b => a / b,
    .binary "%" 2 .left Number.remainder,
    assignment,
    .prefixOp "-" 3 fun a => -a,
    .prefixOp "+" 3 fun a => a,
    stepBefore "++" 1.0,
    stepBefore "--" (-1.0),
    stepAfter "++" 1.0,
    stepAfter "--" (-1.0),
    .openBracket "(",
    .closeBracket ")" "(",
    .ofFormula "max" fun a b : Float => if a > b then a else b,
    .ofFormula "min" fun a b : Float => if a < b then a else b,
    .ofFormula "abs" Float.abs,
    .ofFormula "sqrt" squareRoot]

end Abacus.Library
