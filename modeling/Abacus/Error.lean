import Abacus.Name

/-!
# Errors

What can go wrong, as one type per activity: reading a text (`LexError`), evaluating (`EvalError`),
registering operations (`RegistryError`), naming a variable (`StoreError`) and evaluating a text
from scratch (`CalcError`). Each constructor is a cause; `message` words it.
-/

namespace Abacus

/-- Why a text is no list of tokens. -/
inductive LexError where
  /-- No token begins at the position. The text reaches to the next blank. -/
  | unknownIdentifier (position : Nat) (text : String)
  /-- The numeral at the position is no finite number. The position counts bytes when a text is
  read, and tokens when a list of tokens is evaluated. -/
  | malformedLiteral (position : Nat) (text : String)
deriving DecidableEq

/-- Why an expression has no value. -/
inductive EvalError where
  /-- The text or a literal of it could not be read. -/
  | lex (error : LexError)
  /-- No operation of the name fits where it stands. -/
  | unknownOperator (name : String)
  /-- A function is not followed by its arguments. -/
  | missingCall (function : String)
  /-- A bracket meets one that it does not belong to. -/
  | mismatchedBracket (bracket : String)
  /-- A bracket is still open at the end. -/
  | unbalancedBrackets (bracket : String)
  /-- A call is still open at the end. -/
  | incompleteCall (function : String)
  /-- A separator stands outside the arguments of a call. -/
  | unexpectedSeparator
  /-- An operation finds too few operands. -/
  | insufficientOperands (operation : String) (expected found : Nat)
  /-- The left operand of an assignment is no variable. -/
  | notAssignable (operation : String)
  /-- An operation that changes its operand is given a constant. -/
  | notAVariable (operation : String)
  /-- A variable is read that has no value. -/
  | uninitializedVariable (name : String)
  /-- An operation rejects the values of its operands. -/
  | domain (operation message : String)
  /-- The tokens do not form one expression. -/
  | malformedExpression
deriving DecidableEq

/-- Why an operation cannot be registered. -/
inductive RegistryError where
  /-- The name is not valid in its namespace. -/
  | invalidName (nameClass : NameClass) (name : String)
  /-- The name is taken. -/
  | nameCollision (name : String)
deriving DecidableEq

/-- Why a variable cannot be stored. -/
inductive StoreError where
  /-- The name is no variable name, or an operation has it. -/
  | invalidName (name : String)
deriving DecidableEq

/-- Why evaluating a text from scratch fails. -/
inductive CalcError where
  /-- The bundled operations could not be registered. -/
  | registry (error : RegistryError)
  /-- The expression has no value. -/
  | eval (error : EvalError)
deriving DecidableEq

/-- The wording of a lexical error. -/
def LexError.message : LexError → String
  | .unknownIdentifier position text => s!"Unknown identifier '{text}' at position {position}"
  | .malformedLiteral position text => s!"Malformed numeric literal '{text}' at position {position}"

/-- The wording of an evaluation error. -/
def EvalError.message : EvalError → String
  | .lex error => error.message
  | .unknownOperator name => s!"Unknown operator {name}"
  | .missingCall function => s!"Function call expected after {function}"
  | .mismatchedBracket bracket => s!"Unexpected bracket {bracket}"
  | .unbalancedBrackets bracket => s!"Unclosed bracket {bracket}"
  | .incompleteCall function => s!"Expected ) to close call of {function}"
  | .unexpectedSeparator => "Unexpected ,"
  | .insufficientOperands operation expected found =>
    s!"Unexpected number of arguments for {operation}: expected {expected}, found {found}"
  | .notAssignable operation => s!"Impossible to assign a value to a non-variable with {operation}"
  | .notAVariable operation => s!"Cannot apply {operation} to a constant"
  | .uninitializedVariable name => s!"Variable {name} not init"
  | .domain operation message => s!"{operation}: {message}"
  | .malformedExpression => "Error expression"

/-- The wording of a registration error. -/
def RegistryError.message : RegistryError → String
  | .invalidName nameClass name => s!"\"{name}\" - invalid name for {nameClass.text}"
  | .nameCollision name => s!"Trying to override a function, operator or bracket {name}"

/-- The wording of a naming error. -/
def StoreError.message : StoreError → String
  | .invalidName name => s!"Invalid variable name {name}"

/-- The wording of an error of an evaluation from scratch. -/
def CalcError.message : CalcError → String
  | .registry error => error.message
  | .eval error => error.message

end Abacus
