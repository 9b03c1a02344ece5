import Abacus.Evaluation.Outcome

/-!
# Expressions as trees

The reading of an expression that its author means, apart from how a run finds it. `Expr.tokens`
writes a tree down in order, without marks of its own beyond the brackets that the tree has, and
`Expr.operand` says what a tree comes to: the parts from left to right, then the operation on them.
A variable is resolved where it stands and read by the operation that it is handed to.

`Expr.Fits` says when the priorities of a registry give back the shape of a tree: an operator to the
left lets go before an operator that follows its operand, and holds on where the tree nests to the
right (`Expr.rightEdge`, `Expr.leftSpine`).
-/

namespace Abacus

/-- An expression. -/
inductive Expr where
  /-- A numeral and its value. -/
  | literal (text : String) (value : Float)
  /-- A variable. -/
  | var (name : String)
  /-- A function and its arguments. -/
  | call (name : String) (arity : Nat) (body : List Float → Except EvalError Float)
    (arguments : List Expr)
  /-- A bracket, what it encloses, and the bracket that closes it. -/
  | group (opener : String) (transform : Option UnaryAction) (content : Expr) (closer : String)
  /-- An operator before its operand. -/
  | prefixOp (name : String) (priority : Int) (action : UnaryAction) (operand : Expr)
  /-- An operator after its operand. -/
  | postfixOp (operand : Expr) (name : String) (action : UnaryAction)
  /-- An operator between its operands. -/
  | binary (left : Expr) (name : String) (priority : Int) (associativity : Associativity)
    (action : BinaryAction) (right : Expr)

namespace Expr

/-! ## The tokens of a tree -/

mutual

/-- The tokens of an expression, in order. -/
def tokens : Expr → List Token
  | literal text _ => [⟨.literal, text⟩]
  | var name => [⟨.var, name⟩]
  | call name _ _ arguments =>
    ⟨.function, name⟩ :: ⟨.bracket, "("⟩ :: (argumentTokens arguments ++ [⟨.bracket, ")"⟩])
  | group opener _ content closer =>
    ⟨.bracket, opener⟩ :: (content.tokens ++ [⟨.bracket, closer⟩])
  | prefixOp name _ _ operand => ⟨.operator, name⟩ :: operand.tokens
  | postfixOp operand name _ => operand.tokens ++ [⟨.operator, name⟩]
  | binary left name _ _ _ right => left.tokens ++ ⟨.operator, name⟩ :: right.tokens

/-- The tokens of arguments, with a separator between any two. -/
def argumentTokens : List Expr → List Token
  | [] => []
  | [argument] => argument.tokens
  | argument :: next :: rest =>
    argument.tokens ++ ⟨.separator, ","⟩ :: argumentTokens (next :: rest)

end

/-! ## The value of a tree -/

mutual

/-- What an expression comes to: its parts from left to right, then the operation on them. -/
def operand (store : Store) : Expr → Effect Operand
  | literal _ value => return .literal value
  | var name => fun bindings =>
    let (id, bindings) := bindings.resolve name store
    .ok (.var id) bindings
  | call name arity body arguments => do
    let operands ← argumentOperands store arguments
    if operands.length < arity then
      Effect.fail (.insufficientOperands name arity operands.length)
    else if arity < operands.length then Effect.fail .malformedExpression
    else
      let values ← operands.mapM Effect.read
      return .literal (← Effect.ofExcept (body values))
  | group _ transform content _ => do
    let inner ← content.operand store
    match transform with
    | none => return inner
    | some action => return .literal (← action inner)
  | prefixOp _ _ action operand => do
    let inner ← operand.operand store
    return .literal (← action inner)
  | postfixOp operand _ action => do
    let inner ← operand.operand store
    return .literal (← action inner)
  | binary left _ _ _ action right => do
    let a ← left.operand store
    let b ← right.operand store
    return .literal (← action a b)

/-- What arguments come to, from the first to the last. -/
def argumentOperands (store : Store) : List Expr → Effect (List Operand)
  | [] => return []
  | argument :: rest => do
    let first ← argument.operand store
    return first :: (← argumentOperands store rest)

end

/-- The outcome of an expression: the value of what it comes to, and the store with the variables
that have got a value, or the store as it was when there is an error. -/
def outcome (store : Store) (e : Expr) : Outcome EvalError :=
  match (e.operand store >>= Effect.read) ∅ with
  | .ok value bindings => ⟨.ok value, store.commit bindings⟩
  | .error error _ => ⟨.error error, store⟩

/-! ## The shape that priorities give -/

/-- The operators that still wait when an expression has been read to its end, the innermost
first. -/
def rightEdge : Expr → List Operation
  | prefixOp name priority action operand => operand.rightEdge ++ [⟨name, .prefixOp priority action⟩]
  | binary _ name priority associativity action right =>
    right.rightEdge ++ [⟨name, .binary priority associativity action⟩]
  | _ => []

/-- The binary operators that meet whatever waits before an expression, the outermost first. -/
def leftSpine : Expr → List Operation
  | binary left name priority associativity action _ =>
    ⟨name, .binary priority associativity action⟩ :: left.leftSpine
  | _ => []

/-- Whether an expression is a literal, a variable, a call, a group or a postfix application. -/
def isClosed : Expr → Bool
  | prefixOp .. | binary .. => false
  | _ => true

/-- Expressions over the operations of a registry whose shape the priorities give back. -/
inductive Fits (registry : Registry) : Expr → Prop where
  | literal {text : String} {value : Float} (h : Number.read? text.toList = some value) :
    Fits registry (literal text value)
  | var {name : String} : Fits registry (var name)
  | call {name : String} {arity : Nat} {body : List Float → Except EvalError Float}
    {arguments : List Expr} (h : registry.find? name .function = some ⟨name, .function arity body⟩)
    (ha : ∀ argument ∈ arguments, Fits registry argument) :
    Fits registry (call name arity body arguments)
  | group {opener : String} {transform : Option UnaryAction} {content : Expr} {closer : String}
    (ho : registry.bracket? opener = some ⟨opener, .openBracket transform⟩)
    (hc : registry.bracket? closer = some ⟨closer, .closeBracket opener⟩)
    (h : Fits registry content) : Fits registry (group opener transform content closer)
  | prefixOp {name : String} {priority : Int} {action : UnaryAction} {operand : Expr}
    (hp : registry.find? name .prefixOp = some ⟨name, .prefixOp priority action⟩)
    (hs : ∀ op ∈ operand.leftSpine, (Operation.mk name (.prefixOp priority action)).firesBefore op =
      false)
    (h : Fits registry operand) : Fits registry (prefixOp name priority action operand)
  | postfixOp {operand : Expr} {name : String} {action : UnaryAction}
    (hb : registry.find? name .binary = none)
    (hp : registry.find? name .postfixOp = some ⟨name, .postfixOp action⟩)
    (hc : operand.isClosed = true) (h : Fits registry operand) :
    Fits registry (postfixOp operand name action)
  | binary {left : Expr} {name : String} {priority : Int} {associativity : Associativity}
    {action : BinaryAction} {right : Expr}
    (hb : registry.find? name .binary = some ⟨name, .binary priority associativity action⟩)
    (he : ∀ op ∈ left.rightEdge, op.firesBefore ⟨name, .binary priority associativity action⟩ = true)
    (hs : ∀ op ∈ right.leftSpine,
      (Operation.mk name (.binary priority associativity action)).firesBefore op = false)
    (hl : Fits registry left) (hr : Fits registry right) :
    Fits registry (binary left name priority associativity action right)

end Expr

end Abacus
