import Abacus.Number.Parts
import Abacus.Operation.Basic

/-!
# Operations by rule

Operations that are chosen from a fixed list of rules, for a host that describes its operations as
data. Most rules read their operands and compute. `assign` and `step` write to a variable, and
`reject` refuses every operand.

* `run_reject`: a rejecting operator looks at nothing.
-/

namespace Abacus

/-- The refusal of the rule `reject`. -/
def rejection (name : String) : EvalError :=
  .domain name "rejected"

/-- The rules of binary operators. -/
inductive BinaryRule where
  /-- The sum. -/
  | add
  /-- The difference. -/
  | sub
  /-- The product. -/
  | mul
  /-- The quotient. -/
  | div
  /-- The remainder of the quotient toward zero. -/
  | rem
  /-- The left operand. -/
  | left
  /-- The right operand. -/
  | right
  /-- Ten times the left operand, plus the right one. -/
  | pair
  /-- Assignment to the left operand. -/
  | assign
  /-- Refusal. -/
  | reject
deriving DecidableEq

/-- The rules of prefix and postfix operators and of brackets. -/
inductive UnaryRule where
  /-- The negation. -/
  | neg
  /-- One more. -/
  | inc
  /-- Twice the operand. -/
  | dbl
  /-- The operand. -/
  | id
  /-- The greatest whole number that is not above the operand. -/
  | floor
  /-- The absolute value. -/
  | abs
  /-- Adding one to a variable. -/
  | step
  /-- Refusal. -/
  | reject
deriving DecidableEq

/-- The rules of functions. -/
inductive FunctionRule where
  /-- The arguments as the digits of a number in base ten. -/
  | poly
  /-- The number of arguments. -/
  | count
  /-- Refusal. -/
  | reject
deriving DecidableEq

namespace BinaryRule

/-- The action of a rule under a name. -/
def run (name : String) : BinaryRule → BinaryAction
  | add => Effect.compute₂ fun a b => a + b
  | sub => Effect.compute₂ fun a b => a - b
  | mul => Effect.compute₂ fun a b => a * b
  | div => Effect.compute₂ fun a b => a / b
  | rem => Effect.compute₂ Number.remainder
  | left => Effect.compute₂ fun a _ => a
  | right => Effect.compute₂ fun _ b => b
  | pair => Effect.compute₂ fun a b => a * 10.0 + b
  | assign => Effect.assign name
  | reject => fun _ _ => Effect.fail (rejection name)

@[simp] theorem run_reject (name : String) (left right : Operand) :
    run name reject left right = Effect.fail (rejection name) := rfl

end BinaryRule

namespace UnaryRule

/-- The action of a rule under a name. The effect of the rule `step` is given: it
depends on where the operator stands. -/
def run (name : String) (stepping : UnaryAction) : UnaryRule → UnaryAction
  | neg => Effect.compute fun a => -a
  | inc => Effect.compute fun a => a + 1.0
  | dbl => Effect.compute fun a => a * 2.0
  | id => Effect.compute fun a => a
  | floor => Effect.compute Float.floor
  | abs => Effect.compute Float.abs
  | step => stepping
  | reject => fun _ => Effect.fail (rejection name)

/-- The action of a rule before the operand: a stepped variable counts as it is after the step. -/
def runBefore (name : String) (rule : UnaryRule) : UnaryAction :=
  rule.run name (Effect.stepBefore name 1.0)

/-- The action of a rule after the operand: a stepped variable counts as it was before the step. -/
def runAfter (name : String) (rule : UnaryRule) : UnaryAction :=
  rule.run name (Effect.stepAfter name 1.0)

end UnaryRule

namespace FunctionRule

/-- The value of a rule under a name. -/
def run (name : String) : FunctionRule → List Float → Except EvalError Float
  | poly, arguments => .ok (arguments.foldl (fun sum a => sum * 10.0 + a) 0.0)
  | count, arguments => .ok (Float.ofNat arguments.length)
  | reject, _ => .error (rejection name)

end FunctionRule

namespace Operation

/-- The binary operator of a rule. -/
def binaryOf (name : String) (priority : Int) (associativity : Associativity) (rule : BinaryRule) :
    Operation where
  name
  role := .binary priority associativity (rule.run name)

/-- The prefix operator of a rule. -/
def prefixOf (name : String) (priority : Int) (rule : UnaryRule) : Operation where
  name
  role := .prefixOp priority (rule.runBefore name)

/-- The postfix operator of a rule. -/
def postfixOf (name : String) (rule : UnaryRule) : Operation where
  name
  role := .postfixOp (rule.runAfter name)

/-- The function of a rule. -/
def functionOf (name : String) (arity : Nat) (rule : FunctionRule) : Operation where
  name
  role := .function arity (rule.run name)

/-- The opening bracket of a rule, or one that changes nothing. -/
def openBracketOf (name : String) (rule : Option UnaryRule) : Operation where
  name
  role := .openBracket (rule.map fun rule => rule.runAfter name)

end Operation

end Abacus
