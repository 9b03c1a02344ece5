import Abacus.Number.Shortest
import Abacus.Operation.Formula

/-!
# Logarithms

The natural logarithm, the exponential function, and the logarithm to a base. A base has to be
positive and other than one.
-/

namespace Abacus.Library

/-- The base of the natural logarithm. -/
def euler : Float := 2.718281828459045

/-- The logarithm of `x` to a base. -/
def logarithm (base x : Float) : Except EvalError Float :=
  if base ≤ 0.0 ∨ base == 1.0 then .error (.domain "log" ("invalid base " ++ Number.shortest base))
  else .ok (x.log / base.log)

/-- The logarithmic functions. -/
def logarithms : List Operation :=
  [.ofFormula "ln" Float.log,
    .ofFormula "exp" Float.exp,
    .ofFormula "log" logarithm,
    .ofFormula "getExp" euler]

end Abacus.Library
