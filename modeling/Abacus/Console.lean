import Abacus.Calculator.Basic
import Abacus.Number.Places
import Abacus.Text.Blank

/-!
# The console

A conversation with a calculator, line by line. Each line is answered after a prompt: an expression
by its value or by what is wrong with it, `:vars` by the list of variables, and a blank line by
nothing. The line `exit`, or the end of the input, ends the conversation.

* `respond_blank`: a blank line changes nothing and is not answered;
* `transcript_nil`, `transcript_cons`: what appears on the screen.
-/

namespace Abacus.Console

/-- The number of texts whose tokens the console keeps. -/
def cacheCapacity : Nat := 100

/-- What is written before each line is read. -/
def prompt : String := "> "

/-- A value as the console shows it, with six decimal places. -/
def showValue (value : Float) : String :=
  Number.fixed 6 value

/-- The lines of a text. A line that the text ends with need not be closed. -/
def lines : List Char → List (List Char)
  | [] => []
  | c :: cs =>
    if c = '\n' then [] :: lines cs
    else
      match lines cs with
      | [] => [[c]]
      | line :: rest => (c :: line) :: rest

/-- The list of variables, one on a line. -/
def listing (store : Store) : String :=
  String.join (store.toList.map fun entry => entry.1 ++ " = " ++ showValue entry.2 ++ "\n")

/-- The answer to a line and the calculator afterwards, or `none` if the line ends the
conversation. -/
def respond? (calculator : Calculator) (line : List Char) : Option (String × Calculator) :=
  let text := String.ofList (Text.trim line)
  if text = "" then some ("", calculator)
  else if text = "exit" then none
  else if text = ":vars" then some (listing calculator.store, calculator)
  else
    match calculator.evaluate text with
    | (.ok value, calculator) => some (showValue value ++ "\n", calculator)
    | (.error error, calculator) => some (error.message ++ "\n", calculator)

/-- What appears on the screen when the lines are typed in. -/
def transcript (calculator : Calculator) : List (List Char) → String
  | [] => prompt
  | line :: rest =>
    match respond? calculator line with
    | none => prompt
    | some (answer, calculator) => prompt ++ answer ++ transcript calculator rest

/-- A conversation that has ended. -/
structure Session where
  /-- The exit code. -/
  exitCode : Nat
  /-- What appeared on the screen. -/
  screen : String
deriving DecidableEq

/-- The conversation over a whole input, with the bundled operations. -/
def converse (input : String) : Session :=
  match Calculator.bundled cacheCapacity with
  | .ok calculator => ⟨0, transcript calculator (lines input.toList)⟩
  | .error _ => ⟨1, ""⟩

variable {calculator : Calculator} {line : List Char} {rest : List (List Char)}

theorem respond_blank (h : Text.trim line = []) :
    respond? calculator line = some ("", calculator) := by
  simp [respond?, h]

@[simp] theorem transcript_nil : transcript calculator [] = prompt := rfl

theorem transcript_cons :
    transcript calculator (line :: rest) =
      match respond? calculator line with
      | none => prompt
      | some (answer, calculator) => prompt ++ answer ++ transcript calculator rest := by
  rw [transcript]

end Abacus.Console
