import Abacus.Console

/-!
# The command line

Holds the conversation of `Abacus.Console` on standard input and output.
-/

namespace Abacus.Console

/-- Answers one line after the other until the conversation or the input ends. -/
partial def interact (stdin stdout : IO.FS.Stream) (calculator : Calculator) : IO Unit := do
  stdout.putStr prompt
  stdout.flush
  let line ← stdin.getLine
  if line.isEmpty then return
  let some (answer, calculator) := respond? calculator line.toList | return
  stdout.putStr answer
  interact stdin stdout calculator

end Abacus.Console

/-- Runs the console with the bundled operations. -/
def main : IO UInt32 := do
  match Abacus.Calculator.bundled Abacus.Console.cacheCapacity with
  | .ok calculator =>
    Abacus.Console.interact (← IO.getStdin) (← IO.getStdout) calculator
    return 0
  | .error error =>
    (← IO.getStderr).putStrLn error.message
    return 1
