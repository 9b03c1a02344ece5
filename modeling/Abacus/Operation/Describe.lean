import Abacus.Operation.Basic
import Abacus.Text.Quoted

/-!
# Operations in words

`describe` shows what can be known of an operation without running it: its kind, its name, and the
particulars of its role other than the action. A description that leaves an action out ends in two
dots.
-/

namespace Abacus

/-- The word for a kind in a description. -/
def Kind.text : Kind → String
  | .binary => "Binary"
  | .prefixOp => "Prefix"
  | .postfixOp => "Postfix"
  | .function => "Function"
  | .openBracket => "OpenBracket"
  | .closeBracket => "CloseBracket"

/-- The word for a side in a description. -/
def Associativity.text : Associativity → String
  | .left => "Left"
  | .right => "Right"

namespace Operation

/-- The particulars of a role, as fields of a description. -/
def particulars (op : Operation) : List (String × String) :=
  match op.role with
  | .binary priority associativity _ =>
    [("priority", toString priority), ("associativity", associativity.text)]
  | .prefixOp priority _ => [("priority", toString priority)]
  | .postfixOp _ => []
  | .function arity _ => [("arity", toString arity)]
  | .openBracket transform => [("transform", toString transform.isSome)]
  | .closeBracket opener => [("pare", Text.quote opener)]

/-- A description on one line. -/
def describe (op : Operation) : String :=
  let fields := ("name", Text.quote op.name) :: op.particulars
  let shown := fields.map fun field => field.1 ++ ": " ++ field.2
  let rest := if op.kind.isBracket then [] else [".."]
  op.kind.text ++ " \x7b " ++ ", ".intercalate (shown ++ rest) ++ " \x7d"

example : (prefixOp "-" 3 fun a => -a).describe =
    "Prefix \x7b name: \"-\", priority: 3, .. \x7d" := by decide +kernel

example : (closeBracket ")" "(").describe =
    "CloseBracket \x7b name: \")\", pare: \"(\" \x7d" := by decide +kernel

end Operation

end Abacus
