import Abacus.Evaluation.Run
import Abacus.Token.Scan

/-!
# Evaluating an expression

The outcome of an evaluation is a value or an error, and the store afterwards. The variables that
got a value are written back in one go, and only when there is a value.

* `exists_runAll`, `result_eq_error_iff`: a value is that of a run that ends, and an error that of a
  run that fails;
* `store_of_error`: a failed evaluation leaves the store as it was;
* `evaluate_of_lex_error`: a text that cannot be read is not evaluated.
-/

namespace Abacus

/-- What an evaluation comes to. -/
structure Outcome (ε : Type) where
  /-- The value, or why there is none. -/
  result : Except ε Float
  /-- The stored variables afterwards. -/
  store : Store

/-- Writes the variables that have a value back to the store. -/
def Store.commit (store : Store) (bindings : Bindings) : Store :=
  store.insertMany bindings.toList

/-- Runs over all tokens and ends the run. -/
def runAll (registry : Registry) (store : Store) (tokens : List Token) :
    Except EvalError (Float × Bindings) :=
  runTokens registry store .start 0 tokens >>= Run.finish

/-- Evaluates a list of tokens. -/
def evaluateTokens (registry : Registry) (store : Store) (tokens : List Token) :
    Outcome EvalError :=
  match runAll registry store tokens with
  | .ok (value, bindings) => ⟨.ok value, store.commit bindings⟩
  | .error error => ⟨.error error, store⟩

/-- Evaluates a text. -/
def evaluate (registry : Registry) (store : Store) (text : String) : Outcome EvalError :=
  match tokenize registry text with
  | .ok tokens => evaluateTokens registry store tokens
  | .error error => ⟨.error (.lex error), store⟩

/-- Evaluates texts one after the other, each with the store that the one before it left. -/
def evaluateAll (registry : Registry) (store : Store) :
    List String → List (Except EvalError Float) × Store
  | [] => ([], store)
  | text :: texts =>
    let outcome := evaluate registry store text
    let rest := evaluateAll registry outcome.store texts
    (outcome.result :: rest.1, rest.2)

variable {registry : Registry} {store : Store} {tokens : List Token} {text : String}

theorem evaluateTokens_of_ok {value : Float} {bindings : Bindings}
    (h : runAll registry store tokens = .ok (value, bindings)) :
    evaluateTokens registry store tokens = ⟨.ok value, store.commit bindings⟩ := by
  simp [evaluateTokens, h]

theorem evaluateTokens_of_error {error : EvalError}
    (h : runAll registry store tokens = .error error) :
    evaluateTokens registry store tokens = ⟨.error error, store⟩ := by
  simp [evaluateTokens, h]

/-- A value is that of a run that ends. -/
theorem exists_runAll {value : Float}
    (h : (evaluateTokens registry store tokens).result = .ok value) :
    ∃ bindings, runAll registry store tokens = .ok (value, bindings) := by
  cases hr : runAll registry store tokens with
  | error error =>
    rw [evaluateTokens_of_error hr] at h
    cases h
  | ok outcome =>
    obtain ⟨value', bindings⟩ := outcome
    rw [evaluateTokens_of_ok hr] at h
    obtain rfl := Except.ok.inj h
    exact ⟨bindings, rfl⟩

/-- The error of an evaluation is that of its run. -/
theorem result_eq_error_iff {error : EvalError} :
    (evaluateTokens registry store tokens).result = .error error ↔
      runAll registry store tokens = .error error := by
  cases hr : runAll registry store tokens with
  | error other => simp [evaluateTokens_of_error hr]
  | ok outcome => simp [evaluateTokens_of_ok hr]

theorem evaluate_of_lex_error {error : LexError} (h : tokenize registry text = .error error) :
    evaluate registry store text = ⟨.error (.lex error), store⟩ := by
  simp [evaluate, h]

theorem evaluate_of_tokenize (h : tokenize registry text = .ok tokens) :
    evaluate registry store text = evaluateTokens registry store tokens := by
  simp [evaluate, h]

/-- An evaluation without a value leaves the store as it was. -/
theorem store_of_error {error : EvalError}
    (h : (evaluateTokens registry store tokens).result = .error error) :
    (evaluateTokens registry store tokens).store = store := by
  unfold evaluateTokens at h ⊢
  split at h
  · cases h
  · rfl

@[simp] theorem evaluateAll_nil : evaluateAll registry store [] = ([], store) := rfl

theorem evaluateAll_cons (texts : List String) :
    evaluateAll registry store (text :: texts) =
      ((evaluate registry store text).result ::
          (evaluateAll registry (evaluate registry store text).store texts).1,
        (evaluateAll registry (evaluate registry store text).store texts).2) := rfl

end Abacus
