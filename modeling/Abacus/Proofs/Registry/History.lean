import Abacus.Proofs.Registry.Reachable

/-!
# Histories of a registry

What happens to a registry is a sequence of changes: an operation is registered, a list of them is
loaded, or all are taken out. A change that fails keeps what it had done before it failed. Histories
lead to the registries that registering alone leads to, and to no others (`reachable_iff`).

* `Reachable.utf8ByteSize_le`: no name is longer than the longest one that is recorded.
-/

namespace Abacus.Registry

/-- A change of a registry. -/
inductive Change where
  /-- An operation is registered. -/
  | register (op : Operation)
  /-- Operations are registered up to the first one that fails. -/
  | load (ops : List Operation)
  /-- All operations are taken out. -/
  | clear

/-- The registry after a change, whether or not the change succeeds. -/
def after (registry : Registry) : Change → Registry
  | .register op =>
    match registry.register op with
    | .ok result => result
    | .error _ => registry
  | .load ops => (registry.load ops).1
  | .clear => registry.clear

/-- The registry that a sequence of changes leads to, from none. -/
def ofHistory (changes : List Change) : Registry :=
  changes.foldl after ∅

variable {registry : Registry} {op : Operation} {name : String} {kind : Kind}

theorem Reachable.after (h : registry.Reachable) (change : Change) :
    (registry.after change).Reachable := by
  cases change with
  | register op =>
    simp only [Registry.after]
    split
    · rename_i result hr
      exact h.register hr
    · exact h
  | load ops => exact h.load ops
  | clear => exact .empty

theorem reachable_ofHistory (changes : List Change) : (ofHistory changes).Reachable := by
  have hfold : ∀ registry : Registry, registry.Reachable →
      (changes.foldl Registry.after registry).Reachable := by
    induction changes with
    | nil => exact fun _ h => h
    | cons change changes ih => exact fun registry h => ih _ (h.after change)
  exact hfold ∅ .empty

/-- Histories lead to the registries that registering alone leads to. -/
theorem reachable_iff : registry.Reachable ↔ ∃ changes, registry = ofHistory changes := by
  constructor
  · intro h
    induction h with
    | empty => exact ⟨[], rfl⟩
    | @register registry result op _ hr ih =>
      obtain ⟨changes, rfl⟩ := ih
      refine ⟨changes ++ [.register op], ?_⟩
      rw [ofHistory, List.foldl_append]
      show result = Registry.after (ofHistory changes) (.register op)
      simp only [Registry.after, hr]
  · rintro ⟨changes, rfl⟩
    exact reachable_ofHistory changes

/-- No name is longer than the longest one that is recorded. -/
theorem Reachable.utf8ByteSize_le (h : registry.Reachable) (hf : registry.find? name kind = some op) :
    name.utf8ByteSize ≤ registry.longestName := by
  induction h with
  | empty =>
    rw [find?_empty] at hf
    cases hf
  | @register registry result other _ hr ih =>
    rw [(register_eq_ok_iff.1 hr).2.2, longestName_insert]
    rw [find?_of_register hr] at hf
    split at hf
    · rename_i hk
      rw [hk.1]
      exact Nat.le_max_right _ _
    · exact Nat.le_trans (ih hf) (Nat.le_max_left _ _)

end Abacus.Registry
