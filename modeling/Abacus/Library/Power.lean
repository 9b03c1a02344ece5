import Abacus.Operation.Basic

/-!
# Powers

One operator, which binds tighter than a sign and groups to the right.
-/

namespace Abacus.Library

/-- The operation of raising to a power. -/
def power : List Operation :=
  [.binary "^" 4 .right Float.pow]

end Abacus.Library
