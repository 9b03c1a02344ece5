import Abacus.Evaluation.Frame
import Abacus.Evaluation.Reading
import Abacus.Number.Numeral

/-!
# A run over tokens

An expression is evaluated in one pass over its tokens. A run keeps the operands and variables it
has so far, the operations that wait for their operands, and the reading of the last token. Binary
and prefix operators wait until an operator that binds less tightly comes, a separator, a closing
bracket or the end; postfix operators are applied at once.

* `step_of_startsOperand`: an operand right after an operand is no expression;
* `runTokens_nil`, `runTokens_cons`: the tokens are read one after the other.
-/

namespace Abacus

/-- The state of an evaluation between two tokens. -/
structure Run where
  /-- The operations that wait for their operands, the innermost first. -/
  frames : List Frame
  /-- The operands and variables so far. -/
  workspace : Workspace
  /-- What the last token was read as. -/
  previous : Reading

namespace Run

/-- The state before the first token: an operand is due. -/
def start : Run := ⟨[], ∅, .binary⟩

/-- Adds an operand. -/
def pushOperand (run : Run) (operand : Operand) (reading : Reading) : Run :=
  { run with workspace := run.workspace.push operand, previous := reading }

/-- Lets an operation wait. -/
def pushFrame (run : Run) (op : Operation) (reading : Reading) : Run :=
  { run with
    frames := ⟨op, run.workspace.operands.length⟩ :: run.frames
    previous := reading }

/-- Applies the pending operations that are ready. -/
def unwind (run : Run) (ready : Operation → Bool) : Except EvalError Run := do
  let (frames, workspace) ← fireWhile ready run.frames run.workspace
  return { run with frames, workspace }

/-- Applies the pending operators inside the innermost scope. -/
def unwindScope (run : Run) : Except EvalError Run :=
  run.unwind fun op => !op.isScope

/-- Reads a separator: it ends an argument of the innermost scope, which has to be a call. -/
def separate (run : Run) : Except EvalError Run := do
  let run ← run.unwindScope
  match run.frames with
  | frame :: _ =>
    if frame.operation.kind = .function then return { run with previous := .separator }
    else throw .unexpectedSeparator
  | [] => throw .unexpectedSeparator

/-- Reads a numeral, at the given place in the list of tokens. -/
def readLiteral (run : Run) (index : Nat) (text : String) : Except EvalError Run :=
  match Number.read? text.toList with
  | some value => .ok (run.pushOperand (.literal value) .literal)
  | none => .error (.lex (.malformedLiteral index text))

/-- Reads the name of a function, which a parenthesis has to follow. -/
def readFunction (registry : Registry) (run : Run) (name : String) (next : Option Token) :
    Except EvalError Run :=
  if next.any fun token => token.isSymbol Name.callOpen then
    match registry.find? name .function with
    | some op => .ok (run.pushFrame op .function)
    | none => .error (.unknownOperator name)
  else .error (.missingCall name)

/-- Closes the innermost scope: a call by the closing parenthesis, a group by a bracket that names
its opening one. -/
def close (run : Run) (token : Token) (opener : Option String) : Except EvalError Run := do
  let run ← run.unwindScope
  match run.frames with
  | [] => throw (.mismatchedBracket token.text)
  | frame :: frames =>
    if frame.operation.kind = .function ∧ token.isSymbol Name.callClose then
      let workspace ← frame.fire run.workspace
      return ⟨frames, workspace, .callClose⟩
    else if frame.operation.kind = .openBracket ∧ opener = some frame.operation.name then
      let workspace ← frame.fire run.workspace
      return ⟨frames, workspace, .closeBracket⟩
    else throw (.mismatchedBracket frame.operation.name)

/-- Reads a bracket: the parenthesis before arguments, the start of a group, or the end of a call or
of a group. -/
def readBracket (registry : Registry) (run : Run) (token : Token) : Except EvalError Run :=
  if token.isSymbol Name.callOpen ∧ run.previous = .function then
    .ok { run with previous := .callOpen }
  else
    match registry.bracket? token.text with
    | some op =>
      if op.kind = .openBracket then .ok (run.pushFrame op .openBracket)
      else run.close token op.opener?
    | none =>
      if token.isSymbol Name.callOpen then .error (.mismatchedBracket token.text)
      else run.close token none

/-- Reads an operator after an operand: a binary one if there is one of the name, else a postfix
one. -/
def readInfixOrPostfix (registry : Registry) (run : Run) (name : String) : Except EvalError Run :=
  match registry.find? name .binary with
  | some op => do
    let run ← run.unwind fun pending => pending.firesBefore op
    return run.pushFrame op .binary
  | none =>
    match registry.find? name .postfixOp with
    | some op => do
      let workspace ← run.workspace.run op
      return { run with workspace, previous := .postfixOp }
    | none => .error (.unknownOperator name)

/-- Reads an operator: a prefix operator where an operand is due, another one after an operand. -/
def readOperator (registry : Registry) (run : Run) (name : String) : Except EvalError Run :=
  if run.previous.expectsOperand then
    match registry.find? name .prefixOp with
    | some op => .ok (run.pushFrame op .prefixOp)
    | none => .error (.unknownOperator name)
  else if run.previous.completesOperand then run.readInfixOrPostfix registry name
  else .error (.unknownOperator name)

/-- Reads the name of a variable. -/
def readVariable (store : Store) (run : Run) (name : String) : Run :=
  let (id, bindings) := run.workspace.bindings.resolve name store
  { run with workspace := ⟨.var id :: run.workspace.operands, bindings⟩, previous := .var }

/-- Reads a token, given its place and the token after it. -/
def step (registry : Registry) (store : Store) (run : Run) (index : Nat) (token : Token)
    (next : Option Token) : Except EvalError Run :=
  if run.previous.completesOperand ∧ token.startsOperand registry then .error .malformedExpression
  else
    match token.kind with
    | .separator => run.separate
    | .literal => run.readLiteral index token.text
    | .function => run.readFunction registry token.text next
    | .bracket => run.readBracket registry token
    | .operator => run.readOperator registry token.text
    | .var => .ok (run.readVariable store token.text)

/-- Ends the run: nothing may be open, and one operand is left, which is read. -/
def finish (run : Run) : Except EvalError (Float × Bindings) := do
  let run ← run.unwindScope
  match run.frames with
  | frame :: _ =>
    if frame.operation.kind = .function then throw (.incompleteCall frame.operation.name)
    else throw (.unbalancedBrackets frame.operation.name)
  | [] =>
    match run.workspace.operands with
    | [result] => do
      let value ← run.workspace.bindings.value result
      return (value, run.workspace.bindings)
    | _ => throw .malformedExpression

end Run

/-- Reads tokens one after the other, the first of them at the given place. -/
def runTokens (registry : Registry) (store : Store) (run : Run) (index : Nat) :
    List Token → Except EvalError Run
  | [] => .ok run
  | token :: tokens =>
    match run.step registry store index token tokens.head? with
    | .ok run => runTokens registry store run (index + 1) tokens
    | .error error => .error error

variable {registry : Registry} {store : Store} {run : Run} {index : Nat} {token : Token}

theorem Run.step_of_startsOperand (next : Option Token) (hp : run.previous.completesOperand = true)
    (ht : token.startsOperand registry = true) :
    run.step registry store index token next = .error .malformedExpression := by
  simp [step, hp, ht]

@[simp] theorem runTokens_nil : runTokens registry store run index [] = .ok run := rfl

theorem runTokens_cons (tokens : List Token) :
    runTokens registry store run index (token :: tokens) =
      run.step registry store index token tokens.head? >>= fun run =>
        runTokens registry store run (index + 1) tokens := by
  rw [runTokens]
  cases run.step registry store index token tokens.head? <;> rfl

end Abacus
