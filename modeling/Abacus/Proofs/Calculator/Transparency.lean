import Abacus.Calculator.Basic
import Abacus.Proofs.Library.Registered
import Abacus.Variables.Naming

/-!
# Transparency of the cache

A calculator is asked to read and to evaluate texts, while others may change its store
(`Calculator.answers`). Without a cache, each text is read anew (`plainAnswers`). The answers are the
same, and so is the store afterwards, whatever the capacity of the cache (`answers_eq_plainAnswers`).

The calculator keeps track of what happens without a cache: its registry and its store are the same,
and the cache holds for a text the very tokens that reading it would give (`Calculator.Tracks`).

* `Calculator.Tracks.tokenize`, `Calculator.Tracks.evaluate`: one request;
* `Calculator.Tracks.answers`: any number of requests;
* `evaluateExpression_eq`: the evaluation of a text from scratch is that of such a calculator.
-/

namespace Abacus

/-! ## Requests and answers -/

/-- What happens to a store from outside. -/
inductive Store.Change where
  /-- A variable is given a value, if an expression could name it. -/
  | set (name : String) (value : Float)
  /-- A variable is taken out. -/
  | erase (name : String)
  /-- All variables are taken out. -/
  | clear
  /-- Whatever else works on the store leaves it like this, such as texts that are evaluated at the same
  time. -/
  | replace (store : Store)

/-- The store after a change, whether or not the change succeeds. -/
def Store.after (registry : Registry) (store : Store) : Store.Change → Store
  | .set name value =>
    match store.set registry name value with
    | .ok result => result
    | .error _ => store
  | .erase name => store.erase name
  | .clear => ∅
  | .replace other => other

/-- What is asked of a calculator. -/
inductive Request where
  /-- To read a text. -/
  | tokenize (text : String)
  /-- To evaluate a text. -/
  | evaluate (text : String)
  /-- To evaluate several texts. -/
  | evaluateBatch (texts : List String)
  /-- Nothing, but its store changes. -/
  | change (change : Store.Change)

/-- What comes back. -/
inductive Answer where
  /-- The tokens of a text, or why there are none. -/
  | tokens (result : Except LexError (List Token))
  /-- The value of a text, or why there is none. -/
  | value (result : Except EvalError Float)
  /-- The values of several texts. -/
  | values (results : List (Except EvalError Float))
  /-- Nothing. -/
  | silence

/-- The answer of a calculator to a request, and the calculator afterwards. -/
def Calculator.answer (calculator : Calculator) : Request → Answer × Calculator
  | .tokenize text =>
    let (result, calculator) := calculator.tokenize text
    (.tokens (result.map TokenStream.tokens), calculator)
  | .evaluate text =>
    let (result, calculator) := calculator.evaluate text
    (.value result, calculator)
  | .evaluateBatch texts =>
    let (results, calculator) := calculator.evaluateBatch texts
    (.values results, calculator)
  | .change change =>
    (.silence, { calculator with store := calculator.store.after calculator.registry change })

/-- The answers of a calculator to requests that come one after the other, and the calculator
afterwards. -/
def Calculator.answers (calculator : Calculator) : List Request → List Answer × Calculator
  | [] => ([], calculator)
  | request :: requests =>
    let (answer, calculator) := calculator.answer request
    let (answers, calculator) := calculator.answers requests
    (answer :: answers, calculator)

/-- The answer to a request when every text is read anew, and the store afterwards. -/
def plainAnswer (registry : Registry) (store : Store) : Request → Answer × Store
  | .tokenize text => (.tokens (Abacus.tokenize registry text), store)
  | .evaluate text =>
    let outcome := Abacus.evaluate registry store text
    (.value outcome.result, outcome.store)
  | .evaluateBatch texts =>
    let (results, store) := evaluateAll registry store texts
    (.values results, store)
  | .change change => (.silence, store.after registry change)

/-- The answers to requests that come one after the other when every text is read anew, and the store
afterwards. -/
def plainAnswers (registry : Registry) (store : Store) : List Request → List Answer × Store
  | [] => ([], store)
  | request :: requests =>
    let (answer, store) := plainAnswer registry store request
    let (answers, store) := plainAnswers registry store requests
    (answer :: answers, store)

/-! ## What the cache holds -/

namespace TokenCache

variable {cache : TokenCache} {text : String} {stream : TokenStream}

theorem mem_entries_of_find? (h : cache.find? text = some stream) :
    (text, stream) ∈ cache.entries := by
  obtain ⟨⟨text', stream'⟩, hf, rfl⟩ := Option.map_eq_some_iff.1 h
  obtain rfl : text' = text := by simpa using List.find?_some hf
  exact List.mem_of_find?_eq_some hf

/-- Using a text adds no entry but its own. -/
theorem mem_entries_use {entry : String × TokenStream}
    (h : entry ∈ (cache.use text stream).entries) :
    entry = (text, stream) ∨ entry ∈ cache.entries := by
  rcases List.mem_cons.1 (List.mem_of_mem_take h) with rfl | h
  · exact .inl rfl
  · exact .inr ((List.mem_filter.1 h).1)

end TokenCache

namespace Calculator

/-- The calculator has the registry and the store, and what its cache holds for a text are the tokens
of the text. -/
structure Tracks (registry : Registry) (store : Store) (calculator : Calculator) : Prop where
  registry_eq : calculator.registry = registry
  store_eq : calculator.store = store
  entries : ∀ entry ∈ calculator.cache.entries,
    Abacus.tokenize registry entry.1 = .ok entry.2.tokens

namespace Tracks

variable {registry : Registry} {store : Store} {calculator : Calculator} {text : String}

theorem ofParts (registry : Registry) (store : Store) (capacity : Nat) :
    Tracks registry store (.ofParts registry store capacity) :=
  ⟨rfl, rfl, fun _ h => absurd h List.not_mem_nil⟩

/-- Using a text with its own tokens. -/
theorem use {stream : TokenStream} (h : Tracks registry store calculator)
    (ht : Abacus.tokenize registry text = .ok stream.tokens) (readings : Nat) :
    Tracks registry store
      { calculator with cache := calculator.cache.use text stream, readings := readings } := by
  refine ⟨h.registry_eq, h.store_eq, fun entry he => ?_⟩
  rcases TokenCache.mem_entries_use he with rfl | he
  · exact ht
  · exact h.entries entry he

/-- Reading a text gives its tokens, whether or not the cache holds them. -/
theorem tokenize (h : Tracks registry store calculator) (text : String) :
    (calculator.tokenize text).1.map TokenStream.tokens = Abacus.tokenize registry text ∧
      Tracks registry store (calculator.tokenize text).2 := by
  cases hf : calculator.cache.find? text with
  | some stream =>
    have ht := h.entries _ (TokenCache.mem_entries_of_find? hf)
    rw [tokenize_of_find?_eq_some hf]
    exact ⟨ht.symm, h.use ht calculator.readings⟩
  | none =>
    cases ht : Abacus.tokenize registry text with
    | error error =>
      rw [tokenize_of_error hf (h.registry_eq ▸ ht)]
      exact ⟨rfl, h⟩
    | ok tokens =>
      rw [tokenize_of_ok hf (h.registry_eq ▸ ht)]
      exact ⟨rfl, h.use ht _⟩

/-- Evaluating a text gives what evaluating its tokens gives. -/
theorem evaluate (h : Tracks registry store calculator) (text : String) :
    (calculator.evaluate text).1 = (Abacus.evaluate registry store text).result ∧
      Tracks registry (Abacus.evaluate registry store text).store (calculator.evaluate text).2 := by
  obtain ⟨hresult, htracks⟩ := h.tokenize text
  unfold Calculator.evaluate
  split
  · rename_i error after heq
    rw [heq] at hresult htracks
    rw [evaluate_of_lex_error hresult.symm]
    exact ⟨rfl, htracks⟩
  · rename_i stream after heq
    rw [heq] at hresult htracks
    have hafter : Tracks registry store after := htracks
    rw [evaluate_of_tokenize hresult.symm, hafter.registry_eq, hafter.store_eq]
    exact ⟨rfl, rfl, rfl, hafter.entries⟩

/-- A calculator answers a request as if it had no cache. -/
theorem answer (h : Tracks registry store calculator) (request : Request) :
    (calculator.answer request).1 = (plainAnswer registry store request).1 ∧
      Tracks registry (plainAnswer registry store request).2 (calculator.answer request).2 := by
  cases request with
  | tokenize text =>
    obtain ⟨hresult, htracks⟩ := h.tokenize text
    exact ⟨congrArg Answer.tokens hresult, htracks⟩
  | evaluate text =>
    obtain ⟨hresult, htracks⟩ := h.evaluate text
    exact ⟨congrArg Answer.value hresult, htracks⟩
  | evaluateBatch texts =>
    obtain ⟨rfl, rfl, hentries⟩ := h
    exact ⟨rfl, rfl, rfl, hentries⟩
  | change change =>
    obtain ⟨rfl, rfl, hentries⟩ := h
    exact ⟨rfl, rfl, rfl, hentries⟩

/-- A calculator answers any number of requests as if it had no cache. -/
theorem answers (h : Tracks registry store calculator) (requests : List Request) :
    (calculator.answers requests).1 = (plainAnswers registry store requests).1 ∧
      Tracks registry (plainAnswers registry store requests).2 (calculator.answers requests).2 := by
  induction requests generalizing store calculator with
  | nil => exact ⟨rfl, h⟩
  | cons request requests ih =>
    obtain ⟨hanswer, htracks⟩ := h.answer request
    obtain ⟨hanswers, htracks⟩ := ih htracks
    exact ⟨congr (congrArg List.cons hanswer) hanswers, htracks⟩

end Tracks

end Calculator

/-- The evaluation of a text from scratch is that of the calculator with the bundled registry, with its
error wrapped. -/
theorem evaluateExpression_eq {store : Store} {calculator : Calculator}
    (h : calculator.Tracks Library.registry store) (text : String) :
    evaluateExpression store text =
      ⟨(calculator.evaluate text).1.mapError .eval, (calculator.evaluate text).2.store⟩ := by
  obtain ⟨hresult, htracks⟩ := h.evaluate text
  rw [evaluateExpression_of_bundled Registry.bundled_eq_ok, hresult, htracks.store_eq]

/-- The bundled operations can be registered. -/
theorem result_evaluateExpression_ne_registry (store : Store) (text : String)
    (error : RegistryError) : (evaluateExpression store text).result ≠ .error (.registry error) := by
  rw [evaluateExpression_of_bundled Registry.bundled_eq_ok]
  cases (evaluate Library.registry store text).result <;> exact fun he => nomatch he

/-- A cache of any capacity is transparent: a calculator gives the answers to any requests that are
given when every text is read anew, and leaves the same store. Evaluating a text from scratch is
evaluating it with any calculator that has the bundled operations and the store, and never fails for want
of them. -/
theorem answers_eq_plainAnswers :
    (∀ (registry : Registry) (store : Store) (capacity : Nat) (requests : List Request),
      ((Calculator.ofParts registry store capacity).answers requests).1 =
          (plainAnswers registry store requests).1 ∧
        ((Calculator.ofParts registry store capacity).answers requests).2.store =
          (plainAnswers registry store requests).2) ∧
    ∃ registry, Registry.bundled = .ok registry ∧
      ∀ (store : Store) (capacity : Nat) (requests : List Request) (text : String),
        let calculator := ((Calculator.ofParts registry store capacity).answers requests).2
        evaluateExpression calculator.store text =
            ⟨(calculator.evaluate text).1.mapError .eval, (calculator.evaluate text).2.store⟩ ∧
          ∀ error, (evaluateExpression calculator.store text).result ≠ .error (.registry error) := by
  refine ⟨fun registry store capacity requests => ?_, _, Registry.bundled_eq_ok,
    fun store capacity requests text => ?_⟩
  · obtain ⟨hanswers, htracks⟩ := (Calculator.Tracks.ofParts registry store capacity).answers requests
    exact ⟨hanswers, htracks.store_eq⟩
  · obtain ⟨-, htracks⟩ := (Calculator.Tracks.ofParts Library.registry store capacity).answers requests
    refine ⟨?_, result_evaluateExpression_ne_registry _ text⟩
    rw [htracks.store_eq]
    exact evaluateExpression_eq htracks text

end Abacus
