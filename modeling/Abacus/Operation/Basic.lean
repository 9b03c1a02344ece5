import Abacus.Operation.Effect

/-!
# Operations

An operation is a name and a role: what the name does between operands. A binary operator stands
between two operands, a prefix operator before one and a postfix operator after one; a function is
called with a fixed number of arguments; an opening bracket may change what it encloses, and a
closing bracket names the bracket that it closes.

Operators are handed the operands themselves, so that they can assign to a variable; functions are
handed numbers.
-/

namespace Abacus

/-- The side on which operators of equal priority are grouped. -/
inductive Associativity where
  /-- The left one runs first. -/
  | left
  /-- The right one runs first. -/
  | right
deriving DecidableEq

/-- What an operation does with its operands. -/
inductive Role where
  /-- An operator between two operands. -/
  | binary (priority : Int) (associativity : Associativity) (action : BinaryAction)
  /-- An operator before its operand. -/
  | prefixOp (priority : Int) (action : UnaryAction)
  /-- An operator after its operand. -/
  | postfixOp (action : UnaryAction)
  /-- A function of `arity` arguments. -/
  | function (arity : Nat) (body : List Float → Except EvalError Float)
  /-- A bracket that opens a group and may transform its value. -/
  | openBracket (transform : Option UnaryAction)
  /-- A bracket that closes the group opened by `opener`. -/
  | closeBracket (opener : String)

/-- A name and what it does. -/
structure Operation where
  /-- The spelling. -/
  name : String
  /-- What it does. -/
  role : Role

/-- The kinds of operations: a role without its particulars. -/
inductive Kind where
  /-- Operators between two operands. -/
  | binary
  /-- Operators before an operand. -/
  | prefixOp
  /-- Operators after an operand. -/
  | postfixOp
  /-- Functions. -/
  | function
  /-- Brackets that open a group. -/
  | openBracket
  /-- Brackets that close a group. -/
  | closeBracket
deriving DecidableEq

namespace Kind

/-- Whether operations of the kind are operators. -/
def isOperator (kind : Kind) : Bool :=
  kind = binary ∨ kind = prefixOp ∨ kind = postfixOp

/-- Whether operations of the kind are brackets. -/
def isBracket (kind : Kind) : Bool :=
  kind = openBracket ∨ kind = closeBracket

/-- The namespace of the kind. -/
def nameClass : Kind → NameClass
  | binary | prefixOp | postfixOp => .operator
  | function => .function
  | openBracket | closeBracket => .bracket

/-- The position of the kind in the list of all kinds. -/
def rank : Kind → Nat
  | binary => 0
  | prefixOp => 1
  | postfixOp => 2
  | function => 3
  | openBracket => 4
  | closeBracket => 5

theorem nameClass_eq_operator_iff {kind : Kind} : kind.nameClass = .operator ↔ kind.isOperator = true := by
  cases kind <;> decide

theorem rank_inj {a b : Kind} : a.rank = b.rank ↔ a = b := by
  cases a <;> cases b <;> decide

end Kind

/-- The kind of a role. -/
def Role.kind : Role → Kind
  | .binary .. => .binary
  | .prefixOp .. => .prefixOp
  | .postfixOp .. => .postfixOp
  | .function .. => .function
  | .openBracket .. => .openBracket
  | .closeBracket .. => .closeBracket

/-- The number of operands that a role takes. -/
def Role.demand : Role → Nat
  | .binary .. => 2
  | .prefixOp .. | .postfixOp .. | .openBracket .. => 1
  | .function arity _ => arity
  | .closeBracket .. => 0

namespace Operation

/-- The kind of an operation. -/
def kind (op : Operation) : Kind :=
  op.role.kind

/-- The number of operands that an operation takes. -/
def demand (op : Operation) : Nat :=
  op.role.demand

/-- How tightly a binary or prefix operator binds. -/
def priority? (op : Operation) : Option Int :=
  match op.role with
  | .binary priority .. | .prefixOp priority _ => some priority
  | _ => none

/-- How binary operators of equal priority are grouped. -/
def associativity? (op : Operation) : Option Associativity :=
  match op.role with
  | .binary _ associativity _ => some associativity
  | _ => none

/-- The number of arguments of a function. -/
def arity? (op : Operation) : Option Nat :=
  match op.role with
  | .function arity _ => some arity
  | _ => none

/-- The bracket that a closing bracket closes. -/
def opener? (op : Operation) : Option String :=
  match op.role with
  | .closeBracket opener => some opener
  | _ => none

/-! ## Operations on plain numbers -/

/-- A binary operator that reads its left operand, then its right one. -/
def binary (name : String) (priority : Int) (associativity : Associativity)
    (f : Float → Float → Float) : Operation where
  name
  role := .binary priority associativity (Effect.compute₂ f)

/-- A prefix operator on the value of its operand. -/
def prefixOp (name : String) (priority : Int) (f : Float → Float) : Operation where
  name
  role := .prefixOp priority (Effect.compute f)

/-- A postfix operator on the value of its operand. -/
def postfixOp (name : String) (f : Float → Float) : Operation where
  name
  role := .postfixOp (Effect.compute f)

/-- A bracket that opens a group and leaves its value alone. -/
def openBracket (name : String) : Operation where
  name
  role := .openBracket none

/-- A bracket that closes the group opened by `opener`. -/
def closeBracket (name opener : String) : Operation where
  name
  role := .closeBracket opener

@[simp] theorem kind_binary {name : String} {priority : Int} {associativity : Associativity}
    {f : Float → Float → Float} : (binary name priority associativity f).kind = .binary := rfl

@[simp] theorem kind_prefixOp {name : String} {priority : Int} {f : Float → Float} :
    (prefixOp name priority f).kind = .prefixOp := rfl

@[simp] theorem kind_postfixOp {name : String} {f : Float → Float} :
    (postfixOp name f).kind = .postfixOp := rfl

@[simp] theorem kind_openBracket {name : String} : (openBracket name).kind = .openBracket := rfl

@[simp] theorem kind_closeBracket {name opener : String} :
    (closeBracket name opener).kind = .closeBracket := rfl

end Operation

end Abacus
