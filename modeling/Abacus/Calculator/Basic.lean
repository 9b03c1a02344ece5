import Abacus.Calculator.TokenCache
import Abacus.Library.Bundle

/-!
# The calculator

A registry, a store, and a cache of the texts that were read last. The registry does not change, so
what the cache holds for a text stays true to it. Reading a text that the cache holds gives the very
tokens of its last reading; a text that cannot be read leaves no trace.

* `tokenize_of_find?_eq_some`, `tokenize_of_ok`, `tokenize_of_error`: the three ways of reading;
* `store_tokenize`, `registry_tokenize`: reading changes neither store nor registry.
-/

namespace Abacus

/-- A registry, a store and a cache. -/
structure Calculator where
  /-- The operations. -/
  registry : Registry
  /-- The variables. -/
  store : Store
  /-- The tokens of the texts used last. -/
  cache : TokenCache
  /-- The number of texts that were read and not taken from the cache. -/
  readings : Nat

namespace Calculator

/-- A calculator of a registry and a store that keeps the tokens of so many texts. -/
def ofParts (registry : Registry) (store : Store) (capacity : Nat) : Calculator :=
  ⟨registry, store, .ofCapacity capacity, 0⟩

/-- A calculator with the bundled operations and no variables. -/
def bundled (capacity : Nat) : Except RegistryError Calculator :=
  match Registry.bundled with
  | .ok registry => .ok (ofParts registry ∅ capacity)
  | .error error => .error error

/-- The number of texts whose tokens are kept. -/
def cached (calculator : Calculator) : Nat :=
  calculator.cache.size

/-- The tokens of a text, from the cache if it has them. -/
def tokenize (calculator : Calculator) (text : String) : Except LexError TokenStream × Calculator :=
  match calculator.cache.find? text with
  | some stream => (.ok stream, { calculator with cache := calculator.cache.use text stream })
  | none =>
    match Abacus.tokenize calculator.registry text with
    | .error error => (.error error, calculator)
    | .ok tokens =>
      let stream := ⟨calculator.readings, tokens⟩
      (.ok stream,
        { calculator with
          cache := calculator.cache.use text stream
          readings := calculator.readings + 1 })

/-- The value of a text. -/
def evaluate (calculator : Calculator) (text : String) : Except EvalError Float × Calculator :=
  match calculator.tokenize text with
  | (.error error, calculator) => (.error (.lex error), calculator)
  | (.ok stream, calculator) =>
    let outcome := evaluateTokens calculator.registry calculator.store stream.tokens
    (outcome.result, { calculator with store := outcome.store })

/-- The values of several texts, in their order. A batch does not use the cache. It may be evaluated in
parallel, with one store for all texts. Here the texts are taken one after the other, which stands for
any schedule only if no text writes a variable that another one uses. -/
def evaluateBatch (calculator : Calculator) (texts : List String) :
    List (Except EvalError Float) × Calculator :=
  let (results, store) := evaluateAll calculator.registry calculator.store texts
  (results, { calculator with store })

variable {calculator : Calculator} {text : String}

theorem tokenize_of_find?_eq_some {stream : TokenStream}
    (h : calculator.cache.find? text = some stream) :
    calculator.tokenize text =
      (.ok stream, { calculator with cache := calculator.cache.use text stream }) := by
  simp [tokenize, h]

theorem tokenize_of_ok {tokens : List Token} (h : calculator.cache.find? text = none)
    (ht : Abacus.tokenize calculator.registry text = .ok tokens) :
    calculator.tokenize text =
      (.ok ⟨calculator.readings, tokens⟩,
        { calculator with
          cache := calculator.cache.use text ⟨calculator.readings, tokens⟩
          readings := calculator.readings + 1 }) := by
  simp [tokenize, h, ht]

/-- A text that cannot be read changes nothing. -/
theorem tokenize_of_error {error : LexError} (h : calculator.cache.find? text = none)
    (ht : Abacus.tokenize calculator.registry text = .error error) :
    calculator.tokenize text = (.error error, calculator) := by
  simp [tokenize, h, ht]

/-- A batch is evaluated text by text. -/
theorem evaluateBatch_eq (texts : List String) :
    calculator.evaluateBatch texts =
      ((evaluateAll calculator.registry calculator.store texts).1,
        { calculator with
          store := (evaluateAll calculator.registry calculator.store texts).2 }) := rfl

@[simp] theorem store_tokenize : (calculator.tokenize text).2.store = calculator.store := by
  unfold tokenize
  split
  · rfl
  · split <;> rfl

@[simp] theorem registry_tokenize :
    (calculator.tokenize text).2.registry = calculator.registry := by
  unfold tokenize
  split
  · rfl
  · split <;> rfl

@[simp] theorem registry_evaluate :
    (calculator.evaluate text).2.registry = calculator.registry := by
  have h : (calculator.tokenize text).2.registry = calculator.registry := registry_tokenize
  unfold evaluate
  split
  · rename_i heq
    rw [heq] at h
    exact h
  · rename_i heq
    rw [heq] at h
    exact h

end Calculator

end Abacus
