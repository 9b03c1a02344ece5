import Abacus.Number.Shortest
import Abacus.Operation.Formula

/-!
# Extras

Functions beyond the bundle that a host may add: linear interpolation, a division that refuses a
zero divisor, and a constant.
-/

namespace Abacus.Library

/-- The point at the fraction `t` of the way from `a` to `b`. -/
def lerp (a b t : Float) : Float :=
  a + (b - a) * t

/-- The quotient of `a` by a divisor that is not zero. -/
def safeDivision (a b : Float) : Except EvalError Float :=
  if b == 0.0 then
    .error (.domain "safeDiv" (Number.shortest a ++ " / " ++ Number.shortest b))
  else .ok (a / b)

/-- The functions beyond the bundle. -/
def extras : List Operation :=
  [.ofFormula "lerp" lerp,
    .ofFormula "safeDiv" safeDivision,
    .ofFormula "answer" (42.0 : Float)]

end Abacus.Library
