import Abacus.Evaluation.Outcome
import Abacus.Library.Arithmetic
import Abacus.Library.Logarithms
import Abacus.Library.Power
import Abacus.Library.Trigonometry

/-!
# The bundle

The operations that come with the calculator, and the evaluation of a text with them alone.
-/

namespace Abacus

namespace Library

/-- All bundled operations. -/
def bundle : List Operation :=
  arithmetic ++ power ++ trigonometry ++ logarithms

end Library

/-- The registry of the bundled operations. -/
def Registry.bundled : Except RegistryError Registry :=
  match (∅ : Registry).load Library.bundle with
  | (registry, none) => .ok registry
  | (_, some error) => .error error

/-- Evaluates a text with the bundled operations. -/
def evaluateExpression (store : Store) (text : String) : Outcome CalcError :=
  match Registry.bundled with
  | .error error => ⟨.error (.registry error), store⟩
  | .ok registry =>
    let outcome := evaluate registry store text
    match outcome.result with
    | .ok value => ⟨.ok value, outcome.store⟩
    | .error error => ⟨.error (.eval error), outcome.store⟩

/-- With a bundle that registers, a text is evaluated as ever, and its error is wrapped. -/
theorem evaluateExpression_of_bundled {registry : Registry} {store : Store} {text : String}
    (h : Registry.bundled = .ok registry) :
    evaluateExpression store text =
      ⟨(evaluate registry store text).result.mapError .eval,
        (evaluate registry store text).store⟩ := by
  unfold evaluateExpression
  rw [h]
  dsimp only
  split
  · rename_i value hv
    rw [hv]
    rfl
  · rename_i error he
    rw [he]
    rfl

end Abacus
