import Abacus.Operation.Formula

/-!
# Trigonometry

The trigonometric functions of an angle in radians and their inverses. The inverse cotangent lies
between zero and half a turn.
-/

namespace Abacus.Library

/-- Half a turn, in radians. -/
def pi : Float := 3.141592653589793

/-- A quarter of a turn, in radians. -/
def halfPi : Float := 1.5707963267948966

/-- The trigonometric functions. -/
def trigonometry : List Operation :=
  [.ofFormula "sin" Float.sin,
    .ofFormula "cos" Float.cos,
    .ofFormula "tan" Float.tan,
    .ofFormula "cot" fun x : Float => 1.0 / x.tan,
    .ofFormula "arcsin" Float.asin,
    .ofFormula "arccos" Float.acos,
    .ofFormula "arctan" Float.atan,
    .ofFormula "arccot" fun x : Float => halfPi - x.atan,
    .ofFormula "getPi" pi]

end Abacus.Library
