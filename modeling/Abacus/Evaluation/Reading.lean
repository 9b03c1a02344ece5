import Abacus.Registry
import Abacus.Token.Basic

/-!
# Readings of a token

The same spelling can be read in several ways: `-` is a prefix operator where an operand is due and
a binary one after an operand. What a token is read as depends on the reading of the token before
it.

* `not_completesOperand_of_expectsOperand`: no reading both completes an operand and expects one.
-/

namespace Abacus

/-- What a token turned out to be. -/
inductive Reading where
  /-- A number. -/
  | literal
  /-- A variable. -/
  | var
  /-- An operator before its operand. -/
  | prefixOp
  /-- An operator after its operand. -/
  | postfixOp
  /-- An operator between its operands. -/
  | binary
  /-- A function, whose arguments follow. -/
  | function
  /-- A bracket that opens a group. -/
  | openBracket
  /-- A bracket that closes a group. -/
  | closeBracket
  /-- A mark between two arguments. -/
  | separator
  /-- The parenthesis before the arguments of a call. -/
  | callOpen
  /-- The parenthesis after the arguments of a call. -/
  | callClose
deriving DecidableEq

namespace Reading

/-- Whether an operand has to come next. -/
def expectsOperand : Reading → Bool
  | binary | separator | openBracket | prefixOp | callOpen => true
  | _ => false

/-- Whether an operand has just been completed. -/
def completesOperand : Reading → Bool
  | closeBracket | literal | postfixOp | callClose | var => true
  | _ => false

theorem not_completesOperand_of_expectsOperand {r : Reading} (h : r.expectsOperand = true) :
    r.completesOperand = false := by
  cases r <;> simp_all [expectsOperand, completesOperand]

theorem not_expectsOperand_of_completesOperand {r : Reading} (h : r.completesOperand = true) :
    r.expectsOperand = false := by
  cases r <;> simp_all [expectsOperand, completesOperand]

end Reading

/-- Whether a token begins an operand: a number, a variable, a call, or a group. -/
def Token.startsOperand (registry : Registry) (token : Token) : Bool :=
  match token.kind with
  | .literal | .var | .function => true
  | .bracket => (registry.bracket? token.text).any fun op => op.kind = .openBracket
  | .separator | .operator => false

end Abacus
