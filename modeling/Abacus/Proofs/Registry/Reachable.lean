import Abacus.Registry

/-!
# Registries that registering reaches

A registry is made by registering one operation after the other, from none (`Registry.Reachable`).
So an operation is found under its own name and kind, and its name is valid.

* `Reachable.find?_eq_some`: what a look-up returns has the name and the kind that were asked for;
* `Reachable.load`: loading a list registers, whether or not all of it fits;
* `forall_find?_load`: what holds of all operations stays true while such operations are loaded;
* `find?_load`: the look-ups after a list has been loaded whole.
-/

namespace Abacus.Registry

/-- The registries that registering makes. -/
inductive Reachable : Registry → Prop where
  | empty : Reachable ∅
  | register {registry result : Registry} {op : Operation} (h : Reachable registry)
    (hr : registry.register op = .ok result) : Reachable result

variable {registry : Registry} {op : Operation} {name : String} {kind : Kind}

/-- A look-up returns an operation of the name and the kind, and its name is valid. -/
theorem Reachable.find?_eq_some (h : registry.Reachable) (hf : registry.find? name kind = some op) :
    op.name = name ∧ op.kind = kind ∧ Name.isValid kind.nameClass name = true := by
  induction h with
  | empty =>
    rw [find?_empty] at hf
    cases hf
  | @register registry result other _ hr ih =>
    rw [find?_of_register hr] at hf
    split at hf
    · rename_i hk
      obtain rfl := Option.some.inj hf
      obtain ⟨rfl, rfl⟩ := hk
      exact ⟨rfl, rfl, (register_eq_ok_iff.1 hr).1⟩
    · exact ih hf

/-- A bracket that is found has the name, and it opens or closes. -/
theorem Reachable.bracket?_eq_some (h : registry.Reachable) (hb : registry.bracket? name = some op) :
    op.name = name ∧ (op.kind = .openBracket ∨ op.kind = .closeBracket) := by
  rcases Option.or_eq_some_iff.1 hb with ho | ⟨_, hc⟩
  · obtain ⟨hn, hk, _⟩ := h.find?_eq_some ho
    exact ⟨hn, .inl hk⟩
  · obtain ⟨hn, hk, _⟩ := h.find?_eq_some hc
    exact ⟨hn, .inr hk⟩

theorem Reachable.load (h : registry.Reachable) (ops : List Operation) :
    (registry.load ops).1.Reachable := by
  induction ops generalizing registry with
  | nil => exact h
  | cons op ops ih =>
    cases hr : registry.register op with
    | error error => rwa [load_cons_of_error hr]
    | ok result =>
      rw [load_cons_of_ok hr]
      exact ih (h.register hr)

/-- What holds of all operations of a registry still holds while such operations are loaded. -/
theorem forall_find?_load {P : Operation → Prop} {ops : List Operation}
    (h : ∀ name kind op, registry.find? name kind = some op → P op) (ho : ∀ op ∈ ops, P op) :
    ∀ name kind op, (registry.load ops).1.find? name kind = some op → P op := by
  induction ops generalizing registry with
  | nil => exact h
  | cons op ops ih =>
    obtain ⟨hop, hops⟩ := List.forall_mem_cons.1 ho
    cases hr : registry.register op with
    | error error => rwa [load_cons_of_error hr]
    | ok result =>
      rw [load_cons_of_ok hr]
      refine ih (fun name kind other hf => ?_) hops
      rw [find?_of_register hr] at hf
      split at hf
      · rwa [← Option.some.inj hf]
      · exact h name kind other hf

/-- After a list that fits has been loaded, a name means the operation of the list, or what it meant
before. -/
theorem find?_load {ops : List Operation} (h : (registry.load ops).2 = none) :
    (registry.load ops).1.find? name kind =
      (ops.reverse.find? fun op => op.name = name ∧ op.kind = kind).or
        (registry.find? name kind) := by
  induction ops generalizing registry with
  | nil => rfl
  | cons op ops ih =>
    cases hr : registry.register op with
    | error error =>
      rw [load_cons_of_error hr] at h
      cases h
    | ok result =>
      rw [load_cons_of_ok hr] at h ⊢
      rw [ih h, find?_of_register hr, List.reverse_cons, List.find?_append, Option.or_assoc,
        List.find?_singleton]
      congr 1
      by_cases hk : op.name = name ∧ op.kind = kind <;> simp [hk]

end Abacus.Registry
