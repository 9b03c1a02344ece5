import Abacus.Proofs.Registry.History

/-!
# Consistency of a registry

What reading and evaluating take for granted about the names of a registry (`Registry.IsConsistent`).
Every registry that comes about by registering is consistent (`Reachable.isConsistent`).

The table knows nothing of namespaces: that a name is in one of them only is due to the check that
precedes every insertion (`find?_of_not_collides`). The longest name is carried along while operations
are inserted, and is never looked for.

* `mem_operations_iff`, `pairwise_operations`: each operation is listed once;
* `Reachable.isOperator_of_ne`: operations of different kinds share a name only as operators;
* `Reachable.exists_longestName`: some name is as long as the longest one that is recorded.
-/

namespace Abacus.Registry

/-- Whether a namespace has the name. -/
def uses (registry : Registry) : NameClass → String → Bool
  | .function => registry.isFunction
  | .operator => registry.isOperator
  | .bracket => registry.isBracket

/-- The operators of a name. -/
def operatorsNamed (registry : Registry) (name : String) : List Operation :=
  registry.operations.filter fun op => op.kind.isOperator ∧ op.name = name

/-- What the operations of a registry and its look-ups have to do with each other. -/
structure IsConsistent (registry : Registry) : Prop where
  /-- An operation is found under its own name and kind. The namespace of the kind has the name, and
  the name is valid there. -/
  find?_self : ∀ op ∈ registry.operations, registry.find? op.name op.kind = some op ∧
    registry.uses op.kind.nameClass op.name = true ∧ Name.isValid op.kind.nameClass op.name = true
  /-- What is found is an operation of the registry, with the name and the kind that were asked for. -/
  found : ∀ {name kind op}, registry.find? name kind = some op →
    op ∈ registry.operations ∧ op.name = name ∧ op.kind = kind
  /-- A bracket is found by its name alone. -/
  bracket?_self : ∀ op ∈ registry.operations, op.kind.isBracket = true →
    registry.bracket? op.name = some op
  /-- No name is in two namespaces. -/
  nameClass_unique : ∀ {name c d}, registry.uses c name = true → registry.uses d name = true → c = d
  /-- The name of an operator has at least one operator, and no two of the same kind. -/
  operatorsNamed : ∀ {name}, registry.isOperator name = true → registry.operatorsNamed name ≠ [] ∧
    ((registry.operatorsNamed name).map Operation.kind).Nodup ∧
    (registry.operatorsNamed name).map Operation.kind ⊆ [.prefixOp, .binary, .postfixOp]
  /-- The operator of a name and a kind is the one of the kind among the operators of the name. -/
  operator_iff : ∀ {name kind op}, kind.isOperator = true →
    (registry.find? name kind = some op ↔ op ∈ registry.operatorsNamed name ∧ op.kind = kind)
  /-- No name is longer than the longest one that is recorded. -/
  le_longestName : ∀ op ∈ registry.operations, op.name.utf8ByteSize ≤ registry.longestName
  /-- A name is as long as the longest one that is recorded, unless there is none. -/
  exists_longestName : (∃ op ∈ registry.operations, op.name.utf8ByteSize = registry.longestName) ∨
    registry.operations = [] ∧ registry.longestName = 0
  /-- The size is the number of operations. -/
  size_eq : registry.size = registry.operations.length
  /-- Without operations there are no names. -/
  size_eq_zero_iff : registry.size = 0 ↔ ∀ name, registry.contains name = false

variable {registry : Registry} {op other : Operation} {name : String} {kind k l : Kind}

/-! ## The values of a table -/

section Table

variable {α β : Type} {cmp : α → α → Ordering} [Std.TransCmp cmp] [Std.LawfulEqCmp cmp]
  {t : Std.ExtTreeMap α β cmp}

theorem mem_values_iff {x : β} : x ∈ t.toList.map Prod.snd ↔ ∃ a : α, t[a]? = some x := by
  rw [List.mem_map]
  constructor
  · rintro ⟨⟨a, _⟩, hm, rfl⟩
    exact ⟨a, Std.ExtTreeMap.mem_toList_iff_getElem?_eq_some.1 hm⟩
  · rintro ⟨a, hf⟩
    exact ⟨(a, x), Std.ExtTreeMap.mem_toList_iff_getElem?_eq_some.2 hf, rfl⟩

/-- What holds of the values of any two keys holds of any two of the values that are listed. -/
theorem pairwise_values {R : β → β → Prop}
    (h : ∀ {a b : α} {x y : β}, t[a]? = some x → t[b]? = some y → a ≠ b → R x y) :
    (t.toList.map Prod.snd).Pairwise R := by
  rw [List.pairwise_map]
  refine Std.ExtTreeMap.distinct_keys_toList.imp_of_mem fun {a b} ha hb hne => ?_
  refine h (Std.ExtTreeMap.mem_toList_iff_getElem?_eq_some.1 ha)
    (Std.ExtTreeMap.mem_toList_iff_getElem?_eq_some.1 hb) fun he => hne ?_
  rw [he]
  exact Std.ReflCmp.compare_self

end Table

/-! ## The list of operations -/

theorem mem_operations_iff :
    op ∈ registry.operations ↔ ∃ name kind, registry.find? name kind = some op := by
  rw [operations, mem_values_iff, Prod.exists]
  rfl

theorem length_operations : registry.operations.length = registry.size := by
  rw [operations, List.length_map, Std.ExtTreeMap.length_toList, size]

/-- What is found under its name and kind is what is listed. -/
theorem Reachable.find?_eq_some_iff (h : registry.Reachable) :
    registry.find? name kind = some op ↔
      op ∈ registry.operations ∧ op.name = name ∧ op.kind = kind := by
  constructor
  · intro hf
    obtain ⟨hn, hk, _⟩ := h.find?_eq_some hf
    exact ⟨mem_operations_iff.2 ⟨name, kind, hf⟩, hn, hk⟩
  · rintro ⟨hm, rfl, rfl⟩
    obtain ⟨name, kind, hf⟩ := mem_operations_iff.1 hm
    obtain ⟨rfl, rfl, _⟩ := h.find?_eq_some hf
    exact hf

/-- No two operations have the same name and the same kind. -/
theorem Reachable.pairwise_operations (h : registry.Reachable) :
    registry.operations.Pairwise fun a b => a.name = b.name → a.kind ≠ b.kind := by
  refine pairwise_values fun {a b op other} ha hb hne hn hk => hne ?_
  obtain ⟨hname, hkind, -⟩ := h.find?_eq_some (show registry.find? a.1 a.2 = some op from ha)
  obtain ⟨hname', hkind', -⟩ := h.find?_eq_some (show registry.find? b.1 b.2 = some other from hb)
  exact Prod.ext (hname.symm.trans (hn.trans hname')) (hkind.symm.trans (hk.trans hkind'))

/-! ## Shared names -/

theorem contains_eq_false_iff :
    registry.contains name = false ↔ ∀ kind, registry.find? name kind = none := by
  simp only [contains, isFunction, isOperator, isBracket, bracket?, Option.isSome_or,
    Bool.or_eq_false_iff, Option.isSome_eq_false_iff, Option.isNone_iff_eq_none]
  constructor
  · rintro ⟨⟨hf, ⟨hb, hp⟩, hs⟩, ho, hc⟩ kind
    cases kind <;> assumption
  · intro h
    simp [h]

/-- A name that is free for an operation is at most the name of operators of other kinds, and then the
operation is an operator as well. -/
theorem find?_of_not_collides (h : registry.collides op = false)
    (hf : registry.find? op.name kind = some other) :
    op.kind.isOperator = true ∧ kind.isOperator = true ∧ op.kind ≠ kind := by
  unfold collides at h
  split at h
  · rename_i ho
    simp only [Bool.or_eq_false_iff, isFunction, isBracket, bracket?, Option.isSome_or,
      Option.isSome_eq_false_iff, Option.isNone_iff_eq_none] at h
    obtain ⟨⟨hfun, hopen, hclose⟩, hsame⟩ := h
    refine ⟨ho, ?_, ?_⟩
    · cases kind <;> simp_all [Kind.isOperator]
    · rintro rfl
      simp [hsame] at hf
  · rw [contains_eq_false_iff.1 h kind] at hf
    cases hf

/-- Nothing is found of the name and the kind of an operation whose name is free. -/
theorem find?_eq_none_of_not_collides (h : registry.collides op = false) :
    registry.find? op.name op.kind = none :=
  Option.eq_none_iff_forall_not_mem.2 fun _ hf => (find?_of_not_collides h hf).2.2 rfl

/-- After an operation whose name was free was put in, it is the bracket of its name if it is one. -/
theorem bracket?_insert (h : registry.collides op = false) :
    (registry.insert op).bracket? name =
      if op.name = name ∧ op.kind.isBracket = true then some op else registry.bracket? name := by
  rw [bracket?, find?_insert, find?_insert]
  by_cases hb : op.name = name ∧ op.kind.isBracket = true
  · rw [if_pos hb]
    obtain ⟨rfl, hk⟩ := hb
    have hopen : registry.find? op.name .openBracket = none :=
      Option.eq_none_iff_forall_not_mem.2 fun _ hf => absurd (find?_of_not_collides h hf).2.1 (by decide)
    cases hkind : op.kind with
    | openBracket => simp
    | closeBracket => simp [hopen]
    | _ => simp [hkind, Kind.isBracket] at hk
  · have hne : ∀ kind : Kind, kind.isBracket = true → ¬(op.name = name ∧ op.kind = kind) := by
      rintro _ hk ⟨hn, rfl⟩
      exact hb ⟨hn, hk⟩
    rw [if_neg (hne .openBracket rfl), if_neg (hne .closeBracket rfl), if_neg hb, bracket?]

/-- Operations of different kinds share a name only if both are operators. -/
theorem Reachable.isOperator_of_ne (h : registry.Reachable)
    (hk : registry.find? name k = some op) (hl : registry.find? name l = some other) (hne : k ≠ l) :
    k.isOperator = true ∧ l.isOperator = true := by
  induction h with
  | empty =>
    rw [find?_empty] at hk
    cases hk
  | @register registry result new _ hr ih =>
    have hfree := (register_eq_ok_iff.1 hr).2.1
    rw [find?_of_register hr] at hk hl
    split at hk <;> split at hl
    · rename_i h₁ h₂
      exact absurd (h₁.2.symm.trans h₂.2) hne
    · rename_i h₁ _
      obtain ⟨rfl, rfl⟩ := h₁
      obtain ⟨ho, hl, _⟩ := find?_of_not_collides hfree hl
      exact ⟨ho, hl⟩
    · rename_i _ h₂
      obtain ⟨rfl, rfl⟩ := h₂
      obtain ⟨ho, hk, _⟩ := find?_of_not_collides hfree hk
      exact ⟨hk, ho⟩
    · exact ih hk hl

theorem exists_find?_of_uses {c : NameClass} (h : registry.uses c name = true) :
    ∃ kind op, kind.nameClass = c ∧ registry.find? name kind = some op := by
  have hsome : ∀ kind : Kind, kind.nameClass = c → (registry.find? name kind).isSome = true →
      ∃ kind op, Kind.nameClass kind = c ∧ registry.find? name kind = some op := by
    intro kind hc hs
    obtain ⟨op, hf⟩ := Option.isSome_iff_exists.1 hs
    exact ⟨kind, op, hc, hf⟩
  cases c with
  | function => exact hsome .function rfl h
  | operator =>
    simp only [uses, isOperator, Bool.or_eq_true] at h
    rcases h with (h | h) | h <;> exact hsome _ rfl h
  | bracket =>
    simp only [uses, isBracket, bracket?, Option.isSome_or, Bool.or_eq_true] at h
    rcases h with h | h <;> exact hsome _ rfl h

theorem uses_of_find? (h : registry.find? name kind = some op) :
    registry.uses kind.nameClass name = true := by
  cases kind <;> simp [uses, Kind.nameClass, isFunction, isOperator, isBracket, bracket?, h]

/-- A name belongs to one namespace. -/
theorem Reachable.nameClass_unique (h : registry.Reachable) {c d : NameClass}
    (hc : registry.uses c name = true) (hd : registry.uses d name = true) : c = d := by
  obtain ⟨k, op, rfl, hk⟩ := exists_find?_of_uses hc
  obtain ⟨l, other, rfl, hl⟩ := exists_find?_of_uses hd
  by_cases hne : k = l
  · rw [hne]
  · have hoperators := h.isOperator_of_ne hk hl hne
    cases k <;> cases l <;> simp_all [Kind.isOperator, Kind.nameClass]

/-- A bracket is found by its name alone. -/
theorem Reachable.bracket?_of_find? (h : registry.Reachable)
    (hf : registry.find? name kind = some op) (hk : kind.isBracket = true) :
    registry.bracket? name = some op := by
  cases kind with
  | openBracket => rw [bracket?, hf, Option.some_or]
  | closeBracket =>
    have hnone : registry.find? name .openBracket = none := by
      refine Option.eq_none_iff_forall_not_mem.2 fun other ho => ?_
      have hoperators := h.isOperator_of_ne ho hf (by decide)
      exact absurd hoperators.1 (by decide)
    rw [bracket?, hnone, Option.none_or, hf]
  | _ => cases hk

/-! ## The operators of a name -/

theorem Reachable.mem_operatorsNamed_iff (h : registry.Reachable) :
    op ∈ registry.operatorsNamed name ↔
      op.kind.isOperator = true ∧ registry.find? name op.kind = some op := by
  rw [operatorsNamed, List.mem_filter, decide_eq_true_eq, h.find?_eq_some_iff]
  constructor
  · rintro ⟨hm, hk, hn⟩
    exact ⟨hk, hm, hn, rfl⟩
  · rintro ⟨hk, hm, hn, _⟩
    exact ⟨hm, hk, hn⟩

theorem Reachable.nodup_kinds (h : registry.Reachable) (name : String) :
    ((registry.operatorsNamed name).map Operation.kind).Nodup := by
  have hnamed : ∀ op ∈ registry.operatorsNamed name, op.name = name := fun op hm =>
    (h.find?_eq_some (h.mem_operatorsNamed_iff.1 hm).2).1
  refine List.pairwise_map.2 ?_
  refine (h.pairwise_operations.filter _).imp_of_mem fun {a b} ha hb hne => hne ?_
  rw [hnamed a ha, hnamed b hb]

/-- The operator of a name and a kind is the one of the kind among the operators of the name. -/
theorem Reachable.find?_operator_iff (h : registry.Reachable) (hk : kind.isOperator = true) :
    registry.find? name kind = some op ↔ op ∈ registry.operatorsNamed name ∧ op.kind = kind := by
  rw [h.mem_operatorsNamed_iff]
  constructor
  · intro hf
    obtain ⟨_, rfl, _⟩ := h.find?_eq_some hf
    exact ⟨⟨hk, hf⟩, rfl⟩
  · rintro ⟨⟨_, hf⟩, rfl⟩
    exact hf

theorem Reachable.operatorsNamed_ne_nil (h : registry.Reachable)
    (ho : registry.isOperator name = true) : registry.operatorsNamed name ≠ [] := by
  obtain ⟨kind, op, hc, hf⟩ := exists_find?_of_uses (c := .operator) ho
  exact List.ne_nil_of_mem ((h.find?_operator_iff (Kind.nameClass_eq_operator_iff.1 hc)).1 hf).1

/-! ## The longest name -/

/-- Some name is as long as the longest one that is recorded, unless there is none. -/
theorem Reachable.exists_longestName (h : registry.Reachable) :
    (∃ name kind op, registry.find? name kind = some op ∧
      name.utf8ByteSize = registry.longestName) ∨
      registry = ∅ := by
  induction h with
  | empty => exact .inr rfl
  | @register registry result new _ hr ih =>
    have hfound : ∀ {name kind op}, registry.find? name kind = some op →
        ∃ other, result.find? name kind = some other := by
      intro name kind op hf
      rw [find?_of_register hr]
      split
      · exact ⟨new, rfl⟩
      · exact ⟨op, hf⟩
    have hnew : result.find? new.name new.kind = some new := by
      rw [find?_of_register hr, if_pos ⟨rfl, rfl⟩]
    have hlongest : result.longestName = max registry.longestName new.name.utf8ByteSize := by
      rw [(register_eq_ok_iff.1 hr).2.2, longestName_insert]
    left
    by_cases hle : registry.longestName ≤ new.name.utf8ByteSize
    · exact ⟨new.name, new.kind, new, hnew, by omega⟩
    · rcases ih with ⟨name, kind, op, hf, hn⟩ | rfl
      · obtain ⟨other, ho⟩ := hfound hf
        exact ⟨name, kind, other, ho, by omega⟩
      · simp at hle

theorem Reachable.operations_eq_nil_iff (h : registry.Reachable) :
    registry.operations = [] ↔ ∀ name, registry.contains name = false := by
  rw [List.eq_nil_iff_forall_not_mem]
  constructor
  · intro hnil name
    refine contains_eq_false_iff.2 fun kind => Option.eq_none_iff_forall_not_mem.2 fun op hf => ?_
    exact hnil op (h.find?_eq_some_iff.1 hf).1
  · intro hfree op hm
    have hf : registry.find? op.name op.kind = some op := h.find?_eq_some_iff.2 ⟨hm, rfl, rfl⟩
    rw [contains_eq_false_iff.1 (hfree op.name)] at hf
    cases hf

/-! ## Consistency -/

theorem Reachable.isConsistent (h : registry.Reachable) : registry.IsConsistent := by
  have hself : ∀ op ∈ registry.operations, registry.find? op.name op.kind = some op :=
    fun op hm => h.find?_eq_some_iff.2 ⟨hm, rfl, rfl⟩
  constructor
  case find?_self =>
    exact fun op hm => ⟨hself op hm, uses_of_find? (hself op hm), (h.find?_eq_some (hself op hm)).2.2⟩
  case found => exact h.find?_eq_some_iff.1
  case bracket?_self => exact fun op hm hk => h.bracket?_of_find? (hself op hm) hk
  case nameClass_unique => exact h.nameClass_unique
  case operatorsNamed =>
    intro name ho
    refine ⟨h.operatorsNamed_ne_nil ho, h.nodup_kinds name, fun kind hm => ?_⟩
    obtain ⟨op, hop, rfl⟩ := List.mem_map.1 hm
    have hk : op.kind = .binary ∨ op.kind = .prefixOp ∨ op.kind = .postfixOp :=
      of_decide_eq_true (h.mem_operatorsNamed_iff.1 hop).1
    rcases hk with hk | hk | hk <;> rw [hk] <;> decide
  case operator_iff => exact h.find?_operator_iff
  case le_longestName => exact fun op hm => h.utf8ByteSize_le (hself op hm)
  case exists_longestName =>
    rcases h.exists_longestName with ⟨name, kind, op, hf, hl⟩ | rfl
    · obtain ⟨hm, rfl, _⟩ := h.find?_eq_some_iff.1 hf
      exact .inl ⟨op, hm, hl⟩
    · exact .inr ⟨h.operations_eq_nil_iff.2 fun name => contains_eq_false_iff.2 fun _ => find?_empty, rfl⟩
  case size_eq => exact length_operations.symm
  case size_eq_zero_iff =>
    rw [← length_operations, List.length_eq_zero_iff, h.operations_eq_nil_iff]

end Abacus.Registry
