import Abacus.Proofs.Library.Registered
import Abacus.Proofs.Registry.History
import Abacus.Proofs.Registry.Order

/-!
# What registering comes to

Registering an operation has three outcomes, and which of them it is can be told beforehand from the
name and the kind of the operation and from the operations that are there
(`Reachable.registers_exactly`). If the name is not valid, or if it is taken (`Registry.IsTaken`), the
registry stays as it is. Otherwise it has one operation more, and nothing else about it is new
(`Registry.Extends`). Loading a list is registering its longest beginning that registers.

* `Reachable.collides_iff`: what the check before an insertion finds out;
* `extends_of_register`: the look-ups after an operation has been registered;
* `exists_load_eq`, `isPrefix_of_registerAll`: where loading stops.
-/

namespace Abacus.Registry

/-- Whether the name of an operation is taken: by a function or a bracket, by an operator if the
operation is none, or by an operator of the same kind. -/
def IsTaken (registry : Registry) (op : Operation) : Prop :=
  ∃ other ∈ registry.operations, other.name = op.name ∧
    (other.kind.isOperator = false ∨ op.kind.isOperator = false ∨ other.kind = op.kind)

/-- A registry that has an operation more than another one, and does not differ from it otherwise. -/
structure Extends (registry : Registry) (op : Operation) (result : Registry) : Prop where
  /-- Only under the name and the kind of the operation something else is found. -/
  find?_eq : ∀ name kind, result.find? name kind =
    if op.name = name ∧ op.kind = kind then some op else registry.find? name kind
  /-- Only if the operation is a bracket, another bracket is found, under the name of the operation. -/
  bracket?_eq : ∀ name, result.bracket? name =
    if op.name = name ∧ op.kind.isBracket = true then some op else registry.bracket? name
  /-- Only the namespace of the operation has got a name, which is that of the operation. -/
  uses_iff : ∀ c name, result.uses c name = true ↔
    registry.uses c name = true ∨ op.name = name ∧ op.kind.nameClass = c
  /-- Only the name of the operation has become known. -/
  contains_iff : ∀ name, result.contains name = true ↔ registry.contains name = true ∨ op.name = name
  /-- There is one operation more. -/
  size_eq : result.size = registry.size + 1
  /-- The longest name is the one that was the longest, or that of the operation. -/
  longestName_eq : result.longestName = max registry.longestName op.name.utf8ByteSize

/-- Registers all operations of a list, one after the other. -/
def registerAll (registry : Registry) (ops : List Operation) : Except RegistryError Registry :=
  ops.foldlM register registry

variable {registry result : Registry} {op : Operation} {ops done rest more : List Operation}
  {name : String}

/-! ## One operation -/

/-- The check before an insertion finds out whether the name is taken. -/
theorem Reachable.collides_iff (h : registry.Reachable) :
    registry.collides op = true ↔ registry.IsTaken op := by
  rw [← Bool.not_eq_false, collides_eq_false_iff]
  constructor
  · intro hc
    refine Classical.byContradiction fun hfree => hc fun kind other hf => ?_
    obtain ⟨hm, hn, rfl⟩ := h.find?_eq_some_iff.1 hf
    refine ⟨?_, ?_, ?_⟩
    · exact eq_true_of_ne_false fun hop => hfree ⟨other, hm, hn, .inr (.inl hop)⟩
    · exact eq_true_of_ne_false fun ho => hfree ⟨other, hm, hn, .inl ho⟩
    · exact fun hk => hfree ⟨other, hm, hn, .inr (.inr hk.symm)⟩
  · rintro ⟨other, hm, hn, htaken⟩ hfree
    obtain ⟨hop, ho, hne⟩ := hfree other.kind other (h.find?_eq_some_iff.2 ⟨hm, hn, rfl⟩)
    rcases htaken with hk | hk | hk
    · exact absurd ho (Bool.eq_false_iff.1 hk)
    · exact absurd hop (Bool.eq_false_iff.1 hk)
    · exact hne hk.symm

theorem register_of_not_isValid (hv : Name.isValid op.kind.nameClass op.name = false) :
    registry.register op = .error (.invalidName op.kind.nameClass op.name) := by
  simp [register, hv]

theorem register_of_collides (hv : Name.isValid op.kind.nameClass op.name = true)
    (hc : registry.collides op = true) :
    registry.register op = .error (.nameCollision op.name) := by
  simp [register, hv, hc]

theorem find?_self_of_register (hr : registry.register op = .ok result) :
    result.find? op.name op.kind = some op := by
  rw [find?_of_register hr, if_pos ⟨rfl, rfl⟩]

theorem contains_eq_true_iff :
    registry.contains name = true ↔ ∃ kind op, registry.find? name kind = some op := by
  rw [← Bool.not_eq_false, contains_eq_false_iff, Classical.not_forall]
  exact exists_congr fun kind => Option.ne_none_iff_exists'

/-- The namespaces after an operation has been registered. -/
theorem uses_of_register (hr : registry.register op = .ok result) (c : NameClass) :
    result.uses c name = true ↔
      registry.uses c name = true ∨ op.name = name ∧ op.kind.nameClass = c := by
  constructor
  · intro hu
    obtain ⟨kind, other, rfl, hf⟩ := exists_find?_of_uses hu
    rw [find?_of_register hr] at hf
    split at hf
    · rename_i hk
      exact .inr ⟨hk.1, hk.2 ▸ rfl⟩
    · exact .inl (uses_of_find? hf)
  · rintro (hu | ⟨rfl, rfl⟩)
    · obtain ⟨kind, other, rfl, hf⟩ := exists_find?_of_uses hu
      exact uses_of_find? (find?_register_of_find? hr hf)
    · exact uses_of_find? (find?_self_of_register hr)

/-- The names that are known after an operation has been registered. -/
theorem contains_of_register (hr : registry.register op = .ok result) :
    result.contains name = true ↔ registry.contains name = true ∨ op.name = name := by
  simp only [contains_eq_true_iff]
  constructor
  · rintro ⟨kind, other, hf⟩
    rw [find?_of_register hr] at hf
    split at hf
    · rename_i hk
      exact .inr hk.1
    · exact .inl ⟨kind, other, hf⟩
  · rintro (⟨kind, other, hf⟩ | rfl)
    · exact ⟨kind, other, find?_register_of_find? hr hf⟩
    · exact ⟨op.kind, op, find?_self_of_register hr⟩

/-- An operation that registers is found under its name and kind, and all else is found as before. -/
theorem extends_of_register (hr : registry.register op = .ok result) : registry.Extends op result where
  find?_eq _ _ := find?_of_register hr
  bracket?_eq _ := by
    obtain ⟨-, hc, rfl⟩ := register_eq_ok_iff.1 hr
    exact bracket?_insert hc
  uses_iff c _ := uses_of_register hr c
  contains_iff _ := contains_of_register hr
  size_eq := by
    obtain ⟨-, hc, rfl⟩ := register_eq_ok_iff.1 hr
    exact size_insert hc
  longestName_eq := by rw [(register_eq_ok_iff.1 hr).2.2, longestName_insert]

/-! ## A list of operations -/

theorem registerAll_append (more rest : List Operation) :
    registry.registerAll (more ++ rest) =
      registry.registerAll more >>= fun result => result.registerAll rest :=
  List.foldlM_append

theorem registerAll_cons_of_ok (hr : registry.register op = .ok result) (ops : List Operation) :
    registry.registerAll (op :: ops) = result.registerAll ops := by
  rw [registerAll, List.foldlM_cons, hr]
  rfl

theorem registerAll_cons_of_error {error : RegistryError} (hr : registry.register op = .error error)
    (ops : List Operation) : registry.registerAll (op :: ops) = .error error := by
  rw [registerAll, List.foldlM_cons, hr]
  rfl

/-- Loading registers a beginning of the list, and ends there with the error of the operation that
comes next, if there is one. -/
theorem exists_load_eq (registry : Registry) (ops : List Operation) :
    ∃ done rest result, ops = done ++ rest ∧ registry.registerAll done = .ok result ∧
      (rest = [] ∧ registry.load ops = (result, none) ∨
        ∃ op others error, rest = op :: others ∧ result.register op = .error error ∧
          registry.load ops = (result, some error)) := by
  induction ops generalizing registry with
  | nil => exact ⟨[], [], registry, rfl, rfl, .inl ⟨rfl, rfl⟩⟩
  | cons op ops ih =>
    cases hr : registry.register op with
    | error error =>
      exact ⟨[], op :: ops, registry, rfl, rfl, .inr ⟨op, ops, error, rfl, hr, load_cons_of_error hr ops⟩⟩
    | ok next =>
      obtain ⟨done, rest, result, rfl, hdone, hrest⟩ := ih next
      refine ⟨op :: done, rest, result, rfl, ?_, ?_⟩
      · rw [registerAll_cons_of_ok hr, hdone]
      · rwa [load_cons_of_ok hr]

/-- No beginning of a list registers that has an operation in it which does not register after the ones
before it. -/
theorem isPrefix_of_registerAll {error : RegistryError} {other : Registry}
    (hdone : registry.registerAll done = .ok result) (hop : result.register op = .error error)
    (hp : more <+: done ++ op :: rest) (hmore : registry.registerAll more = .ok other) :
    more <+: done := by
  rcases List.prefix_or_prefix_of_prefix hp (List.prefix_append done (op :: rest)) with h | ⟨extra, rfl⟩
  · exact h
  · cases extra with
    | nil => exact ⟨[], by simp⟩
    | cons first extra =>
      obtain ⟨rfl, -⟩ := List.cons_prefix_cons.1 ((List.prefix_append_right_inj done).1 hp)
      rw [registerAll_append, hdone] at hmore
      cases (registerAll_cons_of_error hop extra).symm.trans hmore

/-! ## Outcomes -/

/-- An operation whose name is not valid does not register, nor does one whose name is valid and taken;
every other one does, and is then in the registry, which is otherwise the same. A registration that
fails leaves the registry as it was. Loading a list makes the registry that its longest beginning makes
when it is registered, and fails with the error of the operation after it. -/
theorem Reachable.registers_exactly (h : registry.Reachable) (op : Operation) (ops : List Operation) :
    ((Name.isValid op.kind.nameClass op.name = false →
        registry.register op = .error (.invalidName op.kind.nameClass op.name)) ∧
      (Name.isValid op.kind.nameClass op.name = true → registry.IsTaken op →
        registry.register op = .error (.nameCollision op.name)) ∧
      (Name.isValid op.kind.nameClass op.name = true → ¬registry.IsTaken op →
        registry.register op = .ok (registry.after (.register op)) ∧
          registry.Extends op (registry.after (.register op)))) ∧
    (∀ error, registry.register op = .error error → registry.after (.register op) = registry) ∧
    ∃ done rest result, ops = done ++ rest ∧ registry.registerAll done = .ok result ∧
      (∀ more other, more <+: ops → registry.registerAll more = .ok other → more <+: done) ∧
      registry.after (.load ops) = result ∧
      (rest = [] ∧ (registry.load ops).2 = none ∨
        ∃ next others error, rest = next :: others ∧ result.register next = .error error ∧
          (registry.load ops).2 = some error) := by
  refine ⟨⟨register_of_not_isValid, fun hv ht => register_of_collides hv (h.collides_iff.2 ht),
    fun hv ht => ?_⟩, fun error hr => ?_, ?_⟩
  · have hc : registry.collides op = false := Bool.eq_false_iff.2 (mt h.collides_iff.1 ht)
    have hr : registry.register op = .ok (registry.insert op) := register_eq_ok_iff.2 ⟨hv, hc, rfl⟩
    have hafter : registry.after (.register op) = registry.insert op := by
      simp only [Registry.after, hr]
    rw [hafter]
    exact ⟨hr, extends_of_register hr⟩
  · simp only [Registry.after, hr]
  · obtain ⟨done, rest, result, rfl, hdone, hload⟩ := exists_load_eq registry ops
    refine ⟨done, rest, result, rfl, hdone, ?_⟩
    rcases hload with ⟨rfl, hl⟩ | ⟨next, others, error, rfl, hnext, hl⟩
    · exact ⟨fun more other hp _ => List.append_nil done ▸ hp, congrArg Prod.fst hl,
        .inl ⟨rfl, congrArg Prod.snd hl⟩⟩
    · exact ⟨fun more other hp hmore => isPrefix_of_registerAll hdone hnext hp hmore,
        congrArg Prod.fst hl, .inr ⟨next, others, error, rfl, hnext, congrArg Prod.snd hl⟩⟩

/-- In the registry of the bundle, where a binary operator is called `^`, a prefix operator may be called
so, and a bracket may not. A list with the bracket after the operator is loaded at least up to the
operator, and fails. -/
theorem registers_exactly_sample :
    let registry := Library.registry
    let root : Operation := .prefixOp "^" 3 Float.sqrt
    let bracket : Operation := .openBracket "^"
    let ops := [root, bracket, .ofFormula "answer" (42.0 : Float)]
    (registry.register root = .ok (registry.after (.register root)) ∧
      registry.Extends root (registry.after (.register root))) ∧
    (registry.register bracket = .error (.nameCollision "^") ∧
      registry.after (.register bracket) = registry) ∧
    (registry.load ops).2 = some (.nameCollision "^") ∧
    ∃ done rest, ops = done ++ rest ∧ [root] <+: done ∧
      registry.registerAll done = .ok (registry.after (.load ops)) := by
  intro registry root bracket ops
  have h : registry.Reachable := Library.reachable_registry
  have hroot : Library.registry.collides (.prefixOp "^" 3 Float.sqrt) = false := by decide +kernel
  have hbracket : Library.registry.collides (.openBracket "^") = true := by decide +kernel
  have hload : (Library.registry.load [.prefixOp "^" 3 Float.sqrt, .openBracket "^",
      .ofFormula "answer" (42.0 : Float)]).2 = some (.nameCollision "^") := by decide +kernel
  obtain ⟨⟨-, -, hok⟩, -⟩ := h.registers_exactly root []
  obtain ⟨⟨-, htaken, -⟩, hsame, done, rest, result, hops, hdone, hlongest, hafter, -⟩ :=
    h.registers_exactly bracket ops
  have hregisters := hok (by decide) fun ht => Bool.eq_false_iff.1 hroot (h.collides_iff.2 ht)
  have hcollides := htaken (by decide) (h.collides_iff.1 hbracket)
  refine ⟨hregisters, ⟨hcollides, hsame _ hcollides⟩, hload, done, rest, hops, ?_, hafter ▸ hdone⟩
  exact hlongest [root] _ (List.prefix_append [root] _) (registerAll_cons_of_ok hregisters.1 [])

end Abacus.Registry
