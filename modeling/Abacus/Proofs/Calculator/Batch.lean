import Abacus.Calculator.Basic
import Abacus.Proofs.Evaluation.Agreement

/-!
# Batches in any order

The texts of a batch are evaluated one after the other, and each of them finds the store that the ones
before it have left. If none of them changes a stored variable that another one names
(`Independent`), each has the value that it has alone, and the store ends up with the changes of all
of them (`Store.Merges`), in whatever order they come (`Calculator.evaluateBatch_of_perm`).

A text writes back every variable that it names, also one that it only reads, so the texts of a batch
may well write to the same variables. What counts is that the store which a text finds agrees with the
first one on the variables that the text names.

* `Store.Merges.unique`: the changes leave no choice;
* `Store.Merges.evaluate`: one more text, after any number of others.
-/

namespace Abacus

/-- The variables that a text names. A text that cannot be read names none. -/
def variablesOf (registry : Registry) (text : String) : List String :=
  match tokenize registry text with
  | .ok tokens => variableNames tokens
  | .error _ => []

/-- Whether a text, evaluated alone, changes no stored variable that another one names. -/
def Spares (registry : Registry) (store : Store) (text other : String) : Prop :=
  ∀ name ∈ variablesOf registry other,
    (evaluate registry store text).store.get? name = store.get? name

/-- Whether no text of a list changes a stored variable that another one names. -/
def Independent (registry : Registry) (store : Store) (texts : List String) : Prop :=
  texts.Pairwise fun text other =>
    Spares registry store text other ∧ Spares registry store other text

instance (registry : Registry) (store : Store) (text other : String) :
    Decidable (Spares registry store text other) :=
  inferInstanceAs (Decidable (∀ name ∈ variablesOf registry other, _))

instance (registry : Registry) (store : Store) (texts : List String) :
    Decidable (Independent registry store texts) :=
  inferInstanceAs (Decidable (texts.Pairwise _))

/-- A store is another one with all the changes that lead from there to some stores. -/
structure Store.Merges (before : Store) (afters : List Store) (merged : Store) : Prop where
  changed : ∀ after ∈ afters, ∀ name, after.get? name ≠ before.get? name →
    merged.get? name = after.get? name
  unchanged : ∀ name, (∀ after ∈ afters, after.get? name = before.get? name) →
    merged.get? name = before.get? name

variable {registry : Registry} {store s t : Store} {text : String}

/-! ## One text -/

/-- From stores that agree on the variables of a text, it comes to the same value or error, and to
stores that agree on them. -/
theorem evaluate_congr (h : ∀ name ∈ variablesOf registry text, s.get? name = t.get? name) :
    (evaluate registry s text).result = (evaluate registry t text).result ∧
      ∀ name ∈ variablesOf registry text,
        (evaluate registry s text).store.get? name =
          (evaluate registry t text).store.get? name := by
  unfold variablesOf at h ⊢
  cases ht : tokenize registry text with
  | error error =>
    rw [evaluate_of_lex_error ht, evaluate_of_lex_error ht]
    exact ⟨rfl, fun _ hm => absurd hm List.not_mem_nil⟩
  | ok tokens =>
    rw [ht] at h
    rw [evaluate_of_tokenize ht, evaluate_of_tokenize ht]
    exact evaluateTokens_congr h

/-- A text changes no variable that it does not name. -/
theorem get?_store_evaluate (hl : registry.IsLocal) {name : String}
    (h : name ∉ variablesOf registry text) :
    (evaluate registry s text).store.get? name = s.get? name := by
  unfold variablesOf at h
  cases ht : tokenize registry text with
  | error error => rw [evaluate_of_lex_error ht]
  | ok tokens =>
    rw [ht] at h
    rw [evaluate_of_tokenize ht]
    cases hr : (evaluateTokens registry s tokens).result with
    | error error => rw [store_of_error hr]
    | ok value =>
      obtain ⟨_, _, hother, _⟩ := get?_store_of_ok hl hr
      exact hother name h

/-! ## Stores with the changes of several texts -/

namespace Store.Merges

variable {before merged merged' : Store} {afters others : List Store} {done : List String}

theorem nil (before : Store) : before.Merges [] before :=
  ⟨fun _ h => absurd h List.not_mem_nil, fun _ _ => rfl⟩

theorem perm (h : before.Merges afters merged) (hp : afters.Perm others) :
    before.Merges others merged :=
  ⟨fun after hm => h.changed after (hp.mem_iff.2 hm),
    fun name hn => h.unchanged name fun after hm => hn after (hp.mem_iff.1 hm)⟩

/-- There is one store with all the changes. -/
theorem unique (h : before.Merges afters merged) (h' : before.Merges afters merged') :
    merged = merged' := by
  refine ext_get? fun name => ?_
  by_cases hn : ∃ after ∈ afters, after.get? name ≠ before.get? name
  · obtain ⟨after, hm, hne⟩ := hn
    rw [h.changed after hm name hne, h'.changed after hm name hne]
  · have hall : ∀ after ∈ afters, after.get? name = before.get? name := fun after hm =>
      Decidable.by_contra fun hne => hn ⟨after, hm, hne⟩
    rw [h.unchanged name hall, h'.unchanged name hall]

/-- A text that comes after others, of which it is independent, has the value that it has alone, and
adds its changes to theirs. -/
theorem evaluate (hl : registry.IsLocal) (text : String)
    (h : store.Merges (done.map fun text => (evaluate registry store text).store) merged)
    (hi : ∀ other ∈ done, Spares registry store text other ∧ Spares registry store other text) :
    (Abacus.evaluate registry merged text).result = (Abacus.evaluate registry store text).result ∧
      store.Merges ((text :: done).map fun text => (Abacus.evaluate registry store text).store)
        (Abacus.evaluate registry merged text).store := by
  -- The others have changed nothing that the text names, so it finds what it finds alone.
  have hagree : ∀ name ∈ variablesOf registry text, merged.get? name = store.get? name :=
    fun name hname => h.unchanged name (List.forall_mem_map.2 fun other hm => (hi other hm).2 name hname)
  obtain ⟨hresult, hnamed⟩ := evaluate_congr hagree
  have hother : ∀ name ∉ variablesOf registry text,
      (Abacus.evaluate registry merged text).store.get? name = merged.get? name :=
    fun name hname => get?_store_evaluate hl hname
  have halone : ∀ name ∉ variablesOf registry text,
      (Abacus.evaluate registry store text).store.get? name = store.get? name :=
    fun name hname => get?_store_evaluate hl hname
  refine ⟨hresult, ?_, ?_⟩
  · rw [List.map_cons, List.forall_mem_cons]
    constructor
    · intro name hne
      exact hnamed name (Decidable.by_contra fun hname => hne (halone name hname))
    · intro after hm name hne
      obtain ⟨other, hdone, rfl⟩ := List.mem_map.1 hm
      have hname : name ∉ variablesOf registry text := fun hname => hne ((hi other hdone).2 name hname)
      rw [hother name hname]
      exact h.changed _ hm name hne
  · intro name hall
    rw [List.map_cons, List.forall_mem_cons] at hall
    by_cases hname : name ∈ variablesOf registry text
    · rw [hnamed name hname, hall.1]
    · rw [hother name hname, h.unchanged name hall.2]

end Store.Merges

/-! ## Batches -/

theorem Independent.perm {texts others : List String} (h : Independent registry store texts)
    (hp : texts.Perm others) : Independent registry store others :=
  (hp.pairwise_iff fun hs => ⟨hs.2, hs.1⟩).1 h

/-- Independent texts that come after others, of which they are independent as well, have the values
that they have alone, and add their changes to those of the others. -/
theorem evaluateAll_of_independent (hl : registry.IsLocal) {texts done : List String} {merged : Store}
    (h : store.Merges (done.map fun text => (evaluate registry store text).store) merged)
    (hi : Independent registry store (texts ++ done)) :
    (evaluateAll registry merged texts).1 =
        texts.map (fun text => (evaluate registry store text).result) ∧
      store.Merges ((texts ++ done).map fun text => (evaluate registry store text).store)
        (evaluateAll registry merged texts).2 := by
  induction texts generalizing done merged with
  | nil => exact ⟨rfl, h⟩
  | cons text texts ih =>
    have hfirst := (List.pairwise_cons.1 hi).1
    obtain ⟨hresult, hmerges⟩ := Store.Merges.evaluate hl text h fun other hm =>
      hfirst other (List.mem_append_right texts hm)
    obtain ⟨hresults, hall⟩ := ih hmerges (hi.perm List.perm_middle.symm)
    rw [evaluateAll_cons, List.map_cons]
    exact ⟨by rw [hresult, hresults], hall.perm (List.perm_middle.map _)⟩

/-- A batch of independent texts over local operations may come in any order. Each text has the value,
or the error, that it has when it is evaluated alone from the store that the batch begins with, and
the batch ends with that store and the changes of every text. Which store this is does not depend on
the order. -/
theorem Calculator.evaluateBatch_of_perm {calculator : Calculator} (hl : calculator.registry.IsLocal)
    {texts : List String} (hi : Independent calculator.registry calculator.store texts) :
    let alone := Abacus.evaluate calculator.registry calculator.store
    ∃ merged, calculator.store.Merges (texts.map fun text => (alone text).store) merged ∧
      ∀ order : List String, order.Perm texts →
        calculator.evaluateBatch order =
          (order.map fun text => (alone text).result, { calculator with store := merged }) := by
  intro alone
  have hbatch : ∀ order : List String, order.Perm texts →
      (evaluateAll calculator.registry calculator.store order).1 =
          order.map (fun text => (alone text).result) ∧
        calculator.store.Merges (texts.map fun text => (alone text).store)
          (evaluateAll calculator.registry calculator.store order).2 := by
    intro order hp
    have hi : Independent calculator.registry calculator.store (order ++ []) := by
      rw [List.append_nil]
      exact hi.perm hp.symm
    obtain ⟨hresults, hmerges⟩ := evaluateAll_of_independent hl (.nil calculator.store) hi
    rw [List.append_nil] at hmerges
    exact ⟨hresults, hmerges.perm (hp.map _)⟩
  obtain ⟨_, hmerges⟩ := hbatch texts (.refl texts)
  refine ⟨_, hmerges, fun order hp => ?_⟩
  obtain ⟨hresults, hother⟩ := hbatch order hp
  rw [evaluateBatch_eq, hresults, hother.unique hmerges]

/-- Texts that read the same variable, one that writes it back as it was, and one that fails: every
order of them gives each its own result and leaves the same store. -/
theorem evaluateBatch_sample :
    let store := (∅ : Store).insert "a" 2.0
    let calculator := Calculator.ofParts Library.registry store 0
    let texts := ["x = a + 1", "y = a * 2", "a = a", "b + a"]
    Independent Library.registry store texts ∧ ∃ merged, ∀ order : List String, order.Perm texts →
      calculator.evaluateBatch order =
        (order.map fun text => (evaluate Library.registry store text).result,
          { calculator with store := merged }) := by
  intro store calculator texts
  have hi : Independent calculator.registry calculator.store texts := by decide +kernel
  obtain ⟨merged, _, hbatch⟩ := Calculator.evaluateBatch_of_perm Library.isLocal_registry hi
  exact ⟨hi, merged, hbatch⟩

end Abacus
