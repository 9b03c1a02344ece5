import Mathlib.Data.List.Nodup
import Abacus.Proofs.Registry.Consistency

/-!
# A table for each namespace

The operations may also be kept in three tables, one for each namespace, with a list of operators under
each name (`Registry.Namespaces`). A new operator goes to the end of the list of its name. The tables
would hold two operators of one name and one kind, or one name in two of them, were it not for the check
before an insertion; the table of a registry, with kinds in its keys, has no room for the former.

With the same history the three tables present what the registry has (`Namespaces.Presents`): the same
is found in them, and registering fails with the same errors. So the names that are consistent after any
history (`isConsistent_ofHistory`) are so in the three tables as well, and the lists of operators are in
the order in which they came.

* `Namespaces.Presents.insert`: an operation whose name is free is put into both;
* `Namespaces.Presents.register`: registering comes to the same in both;
* `Namespaces.Presents.operations_perm`: both have the same operations;
* `Namespaces.Presents.operatorsNamed_perm`: the operators of a name are told by the registry, up to
  their order.
-/

namespace Abacus.Registry

/-- The operations that are known, by namespaces, and the length of the longest of their names. -/
structure Namespaces where
  /-- The function of each name. -/
  functions : Std.ExtTreeMap String Operation
  /-- The operators of each name, in the order in which they were registered. -/
  operators : Std.ExtTreeMap String (List Operation)
  /-- The bracket of each name. -/
  brackets : Std.ExtTreeMap String Operation
  /-- The number of bytes of the longest name, or zero if there is none. -/
  longestName : Nat

namespace Namespaces

/-- No operations. -/
def empty : Namespaces := ⟨∅, ∅, ∅, 0⟩

instance : EmptyCollection Namespaces := ⟨empty⟩

/-- The operators of a name. -/
def operatorsNamed (spaces : Namespaces) (name : String) : List Operation :=
  spaces.operators[name]?.getD []

/-- The first operator of a name that is of the kind. -/
def operator? (spaces : Namespaces) (name : String) (kind : Kind) : Option Operation :=
  (spaces.operatorsNamed name).find? fun op => op.kind = kind

/-- Whether any table has the name. -/
def contains (spaces : Namespaces) (name : String) : Bool :=
  spaces.functions.contains name || spaces.operators.contains name || spaces.brackets.contains name

/-- All operations. -/
def operations (spaces : Namespaces) : List Operation :=
  spaces.functions.toList.map Prod.snd ++ (spaces.operators.toList.map Prod.snd).flatten ++
    spaces.brackets.toList.map Prod.snd

/-- The number of operations, with each operator of a name. -/
def size (spaces : Namespaces) : Nat :=
  spaces.functions.size + (spaces.operators.toList.map Prod.snd).flatten.length + spaces.brackets.size

/-- Whether the name of an operation is taken. -/
def collides (spaces : Namespaces) (op : Operation) : Bool :=
  if op.kind.isOperator then
    spaces.functions.contains op.name || spaces.brackets.contains op.name ||
      (spaces.operator? op.name op.kind).isSome
  else spaces.contains op.name

/-- Puts an operation under its name into the table of its namespace. -/
def insert (spaces : Namespaces) (op : Operation) : Namespaces :=
  let longestName := max spaces.longestName op.name.utf8ByteSize
  match op.kind.nameClass with
  | .function => { spaces with functions := spaces.functions.insert op.name op, longestName }
  | .operator =>
    { spaces with
      operators := spaces.operators.insert op.name (spaces.operatorsNamed op.name ++ [op])
      longestName }
  | .bracket => { spaces with brackets := spaces.brackets.insert op.name op, longestName }

/-- Adds an operation whose name is valid and free. -/
def register (spaces : Namespaces) (op : Operation) : Except RegistryError Namespaces :=
  if !Name.isValid op.kind.nameClass op.name then .error (.invalidName op.kind.nameClass op.name)
  else if spaces.collides op then .error (.nameCollision op.name)
  else .ok (spaces.insert op)

/-- Registers a list of operations up to the first one that fails, and returns its error. -/
def load (spaces : Namespaces) : List Operation → Namespaces × Option RegistryError
  | [] => (spaces, none)
  | op :: ops =>
    match spaces.register op with
    | .ok spaces => spaces.load ops
    | .error error => (spaces, some error)

/-- The tables after a change, whether or not the change succeeds. -/
def after (spaces : Namespaces) : Change → Namespaces
  | .register op =>
    match spaces.register op with
    | .ok result => result
    | .error _ => spaces
  | .load ops => (spaces.load ops).1
  | .clear => ∅

/-- The tables that a sequence of changes leads to, from none. -/
def ofHistory (changes : List Change) : Namespaces :=
  changes.foldl after ∅

/-- Whether the same is found in three tables as in one for all. -/
structure Presents (spaces : Namespaces) (registry : Registry) : Prop where
  /-- The functions are the same. -/
  functions : ∀ name, spaces.functions[name]? = registry.find? name .function
  /-- The operator of a name and a kind is the first of the kind in the list of the name. -/
  operators : ∀ name kind, kind.isOperator = true → spaces.operator? name kind = registry.find? name kind
  /-- The brackets are the same. -/
  brackets : ∀ name, spaces.brackets[name]? = registry.bracket? name
  /-- A list has at least one operator, no two of the same kind, and all of them have the name. -/
  listed : ∀ {name ops}, spaces.operators[name]? = some ops → ops ≠ [] ∧
    (ops.map Operation.kind).Nodup ∧ ∀ op ∈ ops, op.name = name ∧ op.kind.isOperator = true
  /-- The longest name is the same. -/
  longestName : spaces.longestName = registry.longestName

variable {spaces : Namespaces} {registry : Registry} {op : Operation} {name : String} {kind : Kind}

/-- An operator is the first of its kind in a list that has no two of a kind. -/
theorem find?_kind_of_mem {ops : List Operation} (hn : (ops.map Operation.kind).Nodup) (hm : op ∈ ops) :
    ops.find? (fun other => other.kind = op.kind) = some op := by
  induction ops with
  | nil => cases hm
  | cons first ops ih =>
    obtain ⟨hfirst, hn⟩ := List.nodup_cons.1 hn
    rcases List.mem_cons.1 hm with rfl | hm
    · exact List.find?_cons_of_pos (decide_eq_true rfl)
    · rw [List.find?_cons_of_neg, ih hn hm]
      intro hk
      exact hfirst (of_decide_eq_true hk ▸ List.mem_map_of_mem hm)

/-- Operations that stand under their own names in a table are different. -/
theorem nodup_values {t : Std.ExtTreeMap String Operation}
    (h : ∀ {name : String} {op : Operation}, t[name]? = some op → op.name = name) :
    (t.toList.map Prod.snd).Nodup := by
  refine pairwise_values fun {a b op other} ha hb hne he => hne ?_
  rw [← h ha, ← h hb, he]

theorem mem_operators_iff :
    op ∈ (spaces.operators.toList.map Prod.snd).flatten ↔ ∃ name, op ∈ spaces.operatorsNamed name := by
  simp only [List.mem_flatten, mem_values_iff, operatorsNamed]
  constructor
  · rintro ⟨ops, ⟨name, ho⟩, hm⟩
    exact ⟨name, by simpa [ho] using hm⟩
  · rintro ⟨name, hm⟩
    cases ho : spaces.operators[name]? with
    | none => simp [ho] at hm
    | some ops => exact ⟨ops, ⟨name, ho⟩, by simpa [ho] using hm⟩

/-! ## Putting an operation in -/

theorem getElem?_functions_insert :
    (spaces.insert op).functions[name]? =
      if op.name = name ∧ op.kind = .function then some op else spaces.functions[name]? := by
  unfold Namespaces.insert
  cases hk : op.kind <;> simp [Kind.nameClass, Std.ExtTreeMap.getElem?_insert]

theorem getElem?_operators_insert :
    (spaces.insert op).operators[name]? =
      if op.name = name ∧ op.kind.isOperator = true then some (spaces.operatorsNamed name ++ [op])
      else spaces.operators[name]? := by
  unfold Namespaces.insert
  by_cases hn : op.name = name <;> cases hk : op.kind <;>
    simp [Kind.nameClass, Kind.isOperator, Std.ExtTreeMap.getElem?_insert, hn]

theorem getElem?_brackets_insert :
    (spaces.insert op).brackets[name]? =
      if op.name = name ∧ op.kind.isBracket = true then some op else spaces.brackets[name]? := by
  unfold Namespaces.insert
  cases hk : op.kind <;> simp [Kind.nameClass, Kind.isBracket, Std.ExtTreeMap.getElem?_insert]

theorem longestName_insert :
    (spaces.insert op).longestName = max spaces.longestName op.name.utf8ByteSize := by
  unfold Namespaces.insert
  cases op.kind.nameClass <;> rfl

/-- The first operator of a kind after one more operation was put in: an operator goes to the end of the
list of its name. -/
theorem operator?_insert (hk : kind.isOperator = true) :
    (spaces.insert op).operator? name kind =
      (spaces.operator? name kind).or (if op.name = name ∧ op.kind = kind then some op else none) := by
  unfold operator? operatorsNamed
  rw [getElem?_operators_insert]
  by_cases ho : op.name = name ∧ op.kind.isOperator = true
  · simp [ho.1, ho.2, operatorsNamed, List.find?_append, List.find?_singleton]
  · have hne : ¬(op.name = name ∧ op.kind = kind) := by
      rintro ⟨hn, rfl⟩
      exact ho ⟨hn, hk⟩
    rw [if_neg ho, if_neg hne, Option.or_none]

/-! ## What the tables present -/

namespace Presents

theorem empty : Presents ∅ ∅ where
  functions name := by
    rw [find?_empty]
    exact Std.ExtTreeMap.getElem?_empty
  operators name kind _ := by
    rw [find?_empty, operator?, operatorsNamed, show (∅ : Namespaces).operators = ∅ from rfl,
      Std.ExtTreeMap.getElem?_empty]
    rfl
  brackets name := by
    rw [bracket?, find?_empty, find?_empty]
    exact Std.ExtTreeMap.getElem?_empty
  listed h := by
    rw [show (∅ : Namespaces).operators = ∅ from rfl, Std.ExtTreeMap.getElem?_empty] at h
    cases h
  longestName := rfl

/-- The list of a name has operators of the name, and no two of the same kind. -/
theorem listed_operatorsNamed (h : spaces.Presents registry) (name : String) :
    ((spaces.operatorsNamed name).map Operation.kind).Nodup ∧
      ∀ op ∈ spaces.operatorsNamed name, op.name = name ∧ op.kind.isOperator = true := by
  unfold operatorsNamed
  cases ho : spaces.operators[name]? with
  | none => simp
  | some ops => exact (h.listed ho).2

/-- The operators in the list of a name are those that are found under it. -/
theorem mem_operatorsNamed_iff (h : spaces.Presents registry) :
    op ∈ spaces.operatorsNamed name ↔
      op.kind.isOperator = true ∧ registry.find? name op.kind = some op := by
  obtain ⟨hnodup, hlisted⟩ := h.listed_operatorsNamed name
  constructor
  · intro hm
    obtain ⟨-, hk⟩ := hlisted op hm
    refine ⟨hk, ?_⟩
    rw [← h.operators name op.kind hk]
    exact find?_kind_of_mem hnodup hm
  · rintro ⟨hk, hf⟩
    rw [← h.operators name op.kind hk] at hf
    exact List.mem_of_find?_eq_some hf

theorem contains_functions (h : spaces.Presents registry) :
    spaces.functions.contains name = registry.isFunction name := by
  rw [Std.ExtTreeMap.contains_eq_isSome_getElem?, h.functions, isFunction]

theorem contains_brackets (h : spaces.Presents registry) :
    spaces.brackets.contains name = registry.isBracket name := by
  rw [Std.ExtTreeMap.contains_eq_isSome_getElem?, h.brackets, isBracket]

/-- A name has a list exactly if it is the name of an operator. -/
theorem contains_operators (h : spaces.Presents registry) :
    spaces.operators.contains name = registry.isOperator name := by
  have hiff : registry.isOperator name = true ↔ ∃ op, op ∈ spaces.operatorsNamed name := by
    constructor
    · intro ho
      obtain ⟨kind, op, hc, hf⟩ := exists_find?_of_uses (c := .operator) ho
      rw [← h.operators name kind (Kind.nameClass_eq_operator_iff.1 hc)] at hf
      exact ⟨op, List.mem_of_find?_eq_some hf⟩
    · rintro ⟨op, hm⟩
      obtain ⟨hk, hf⟩ := h.mem_operatorsNamed_iff.1 hm
      have huses := uses_of_find? hf
      rwa [Kind.nameClass_eq_operator_iff.2 hk] at huses
  rw [Bool.eq_iff_iff, hiff, Std.ExtTreeMap.contains_eq_isSome_getElem?, operatorsNamed]
  cases ho : spaces.operators[name]? with
  | none => simp
  | some ops => simpa using List.exists_mem_of_ne_nil ops (h.listed ho).1

/-- A name is taken in both or in none. -/
theorem collides_eq (h : spaces.Presents registry) : spaces.collides op = registry.collides op := by
  unfold Namespaces.collides Registry.collides
  split
  · rename_i hk
    rw [h.contains_functions, h.contains_brackets, h.operators _ _ hk]
  · rw [Namespaces.contains, Registry.contains, h.contains_functions, h.contains_operators,
      h.contains_brackets]

/-- The list of a name that is free for an operator has no operator of the same kind. -/
theorem nodup_kinds_concat (h : spaces.Presents registry) (hc : registry.collides op = false) :
    ((spaces.operatorsNamed op.name ++ [op]).map Operation.kind).Nodup := by
  rw [List.map_append, List.map_singleton]
  refine List.nodup_append.2
    ⟨(h.listed_operatorsNamed op.name).1, List.pairwise_singleton _ _, ?_⟩
  rintro kind hm _ hkind rfl
  obtain ⟨other, hother, he⟩ := List.mem_map.1 hm
  have hf := (h.mem_operatorsNamed_iff.1 hother).2
  rw [he, List.mem_singleton.1 hkind, find?_eq_none_of_not_collides hc] at hf
  cases hf

/-- An operation whose name is free is put into both. -/
theorem insert (h : spaces.Presents registry) (hc : registry.collides op = false) :
    (spaces.insert op).Presents (registry.insert op) where
  functions name := by
    rw [getElem?_functions_insert, find?_insert, h.functions]
  operators name kind hk := by
    rw [operator?_insert hk, find?_insert, h.operators name kind hk]
    split
    · rename_i hsame
      obtain ⟨rfl, rfl⟩ := hsame
      rw [find?_eq_none_of_not_collides hc, Option.none_or]
    · rw [Option.or_none]
  brackets name := by
    rw [getElem?_brackets_insert, bracket?_insert hc, h.brackets]
  listed {name ops} hops := by
    rw [getElem?_operators_insert] at hops
    split at hops
    · rename_i hsame
      obtain ⟨rfl, hk⟩ := hsame
      obtain rfl := Option.some.inj hops
      refine ⟨List.append_ne_nil_of_right_ne_nil _ (List.cons_ne_nil _ _), h.nodup_kinds_concat hc, ?_⟩
      exact List.forall_mem_append.2
        ⟨(h.listed_operatorsNamed op.name).2, List.forall_mem_singleton.2 ⟨rfl, hk⟩⟩
    · exact h.listed hops
  longestName := by
    rw [Namespaces.longestName_insert, Registry.longestName_insert, h.longestName]

/-- Registering comes to the same in both. -/
theorem register (h : spaces.Presents registry) (op : Operation) :
    (∃ error, spaces.register op = .error error ∧ registry.register op = .error error) ∨
      ∃ spaces' result, spaces.register op = .ok spaces' ∧ registry.register op = .ok result ∧
        spaces'.Presents result := by
  unfold Namespaces.register Registry.register
  rw [h.collides_eq]
  split
  · exact .inl ⟨_, rfl, rfl⟩
  · split
    · exact .inl ⟨_, rfl, rfl⟩
    · rename_i hc
      exact .inr ⟨_, _, rfl, rfl, h.insert (Bool.eq_false_iff.2 hc)⟩

theorem load (h : spaces.Presents registry) (ops : List Operation) :
    (spaces.load ops).1.Presents (registry.load ops).1 ∧
      (spaces.load ops).2 = (registry.load ops).2 := by
  induction ops generalizing spaces registry with
  | nil => exact ⟨h, rfl⟩
  | cons op ops ih =>
    rcases h.register op with ⟨error, hs, hr⟩ | ⟨spaces', result, hs, hr, h'⟩
    · simpa [Namespaces.load, hs, load_cons_of_error hr] using h
    · simpa [Namespaces.load, hs, load_cons_of_ok hr] using ih h'

theorem after (h : spaces.Presents registry) (change : Change) :
    (spaces.after change).Presents (registry.after change) := by
  cases change with
  | register op =>
    rcases h.register op with ⟨error, hs, hr⟩ | ⟨spaces', result, hs, hr, h'⟩
    · simpa [Namespaces.after, Registry.after, hs, hr] using h
    · simpa [Namespaces.after, Registry.after, hs, hr] using h'
  | load ops => exact (h.load ops).1
  | clear => exact .empty

theorem ofHistory (changes : List Change) :
    (Namespaces.ofHistory changes).Presents (Registry.ofHistory changes) := by
  have hfold : ∀ (spaces : Namespaces) (registry : Registry), spaces.Presents registry →
      (changes.foldl Namespaces.after spaces).Presents (changes.foldl Registry.after registry) := by
    induction changes with
    | nil => exact fun _ _ h => h
    | cons change changes ih => exact fun _ _ h => ih _ _ (h.after change)
  exact hfold ∅ ∅ .empty

/-! ## All operations -/

/-- The operations of the tables are those that are found in them. -/
theorem mem_operations_iff (h : spaces.Presents registry) (hr : registry.Reachable) :
    op ∈ spaces.operations ↔ op ∈ registry.operations := by
  rw [operations, List.mem_append, List.mem_append, mem_values_iff, mem_values_iff,
    mem_operators_iff, Registry.mem_operations_iff]
  constructor
  · rintro ((⟨name, hf⟩ | ⟨name, hm⟩) | ⟨name, hf⟩)
    · exact ⟨name, .function, (h.functions name).symm.trans hf⟩
    · exact ⟨name, op.kind, (h.mem_operatorsNamed_iff.1 hm).2⟩
    · rw [h.brackets] at hf
      rcases Option.or_eq_some_iff.1 hf with hf | ⟨-, hf⟩
      · exact ⟨name, _, hf⟩
      · exact ⟨name, _, hf⟩
  · rintro ⟨name, kind, hf⟩
    cases hc : kind.nameClass with
    | function =>
      obtain rfl : kind = .function := by cases kind <;> first | rfl | cases hc
      exact .inl (.inl ⟨name, (h.functions name).trans hf⟩)
    | operator =>
      rw [← h.operators name kind (Kind.nameClass_eq_operator_iff.1 hc)] at hf
      exact .inl (.inr ⟨name, List.mem_of_find?_eq_some hf⟩)
    | bracket =>
      have hk : kind.isBracket = true := by cases kind <;> first | rfl | cases hc
      exact .inr ⟨name, (h.brackets name).trans (hr.bracket?_of_find? hf hk)⟩

theorem functions_eq_some (h : spaces.Presents registry) (hr : registry.Reachable)
    (hf : spaces.functions[name]? = some op) : op.name = name ∧ op.kind.nameClass = .function := by
  rw [h.functions] at hf
  obtain ⟨hn, hk, -⟩ := hr.find?_eq_some hf
  exact ⟨hn, congrArg Kind.nameClass hk⟩

theorem brackets_eq_some (h : spaces.Presents registry) (hr : registry.Reachable)
    (hf : spaces.brackets[name]? = some op) : op.name = name ∧ op.kind.nameClass = .bracket := by
  rw [h.brackets] at hf
  obtain ⟨hn, hk | hk⟩ := hr.bracket?_eq_some hf <;> exact ⟨hn, congrArg Kind.nameClass hk⟩

/-- No operator is in two lists, or in one list twice. -/
theorem nodup_operators (h : spaces.Presents registry) :
    (spaces.operators.toList.map Prod.snd).flatten.Nodup := by
  refine List.nodup_flatten.2 ⟨fun ops hm => ?_, pairwise_values ?_⟩
  · obtain ⟨name, ho⟩ := mem_values_iff.1 hm
    exact (h.listed ho).2.1.of_map _
  · rintro a b ops others ha hb hne op hop hother
    refine hne ?_
    rw [← ((h.listed ha).2.2 op hop).1, ← ((h.listed hb).2.2 op hother).1]

/-- No operation is listed twice: different tables have operations of different namespaces. -/
theorem nodup_operations (h : spaces.Presents registry) (hr : registry.Reachable) :
    spaces.operations.Nodup := by
  have hfunctions : ∀ op ∈ spaces.functions.toList.map Prod.snd, op.kind.nameClass = .function := by
    intro op hm
    obtain ⟨name, hf⟩ := mem_values_iff.1 hm
    exact (h.functions_eq_some hr hf).2
  have hoperators : ∀ op ∈ (spaces.operators.toList.map Prod.snd).flatten,
      op.kind.nameClass = .operator := by
    intro op hm
    obtain ⟨name, hm⟩ := mem_operators_iff.1 hm
    exact Kind.nameClass_eq_operator_iff.2 (h.mem_operatorsNamed_iff.1 hm).1
  have hbrackets : ∀ op ∈ spaces.brackets.toList.map Prod.snd, op.kind.nameClass = .bracket := by
    intro op hm
    obtain ⟨name, hf⟩ := mem_values_iff.1 hm
    exact (h.brackets_eq_some hr hf).2
  rw [operations, List.nodup_append, List.nodup_append]
  refine ⟨⟨nodup_values fun hf => (h.functions_eq_some hr hf).1, h.nodup_operators, ?_⟩,
    nodup_values fun hf => (h.brackets_eq_some hr hf).1, ?_⟩
  · rintro op hf _ ho rfl
    cases (hfunctions op hf).symm.trans (hoperators op ho)
  · rintro op hm _ hb rfl
    rcases List.mem_append.1 hm with hf | ho
    · cases (hfunctions op hf).symm.trans (hbrackets op hb)
    · cases (hoperators op ho).symm.trans (hbrackets op hb)

/-- Both have the same operations. -/
theorem operations_perm (h : spaces.Presents registry) (hr : registry.Reachable) :
    spaces.operations.Perm registry.operations := by
  have hnodup : registry.operations.Nodup :=
    hr.pairwise_operations.imp fun hne he => hne (congrArg Operation.name he) (congrArg Operation.kind he)
  exact (List.perm_ext_iff_of_nodup (h.nodup_operations hr) hnodup).2 fun op => h.mem_operations_iff hr

theorem size_eq (h : spaces.Presents registry) (hr : registry.Reachable) :
    spaces.size = registry.size := by
  rw [← length_operations, ← (h.operations_perm hr).length_eq, operations, size, List.length_append,
    List.length_append, List.length_map, List.length_map, Std.ExtTreeMap.length_toList,
    Std.ExtTreeMap.length_toList]

/-- The operators of a name are those of the registry, each once. -/
theorem operatorsNamed_perm (h : spaces.Presents registry) (hr : registry.Reachable) (name : String) :
    (spaces.operatorsNamed name).Perm (registry.operatorsNamed name) := by
  refine (List.perm_ext_iff_of_nodup ?_ ?_).2 fun op => ?_
  · exact (h.listed_operatorsNamed name).1.of_map _
  · exact (hr.nodup_kinds name).of_map _
  · rw [h.mem_operatorsNamed_iff, hr.mem_operatorsNamed_iff]

end Presents

end Namespaces

/-- After any history of a registry, its operations and its look-ups are consistent, also where a
registration or a list of them has failed. An extension that goes on after a failure is a sequence of
registrations. Tables by namespaces with the same history present this registry: the same is found in
them, and they have the same operations, and as many. -/
theorem isConsistent_ofHistory (changes : List Change) :
    let registry := ofHistory changes
    let spaces := Namespaces.ofHistory changes
    registry.IsConsistent ∧ spaces.Presents registry ∧
      spaces.operations.Perm registry.operations ∧ spaces.size = registry.size :=
  have hr := reachable_ofHistory changes
  have h := Namespaces.Presents.ofHistory changes
  ⟨hr.isConsistent, h, h.operations_perm hr, h.size_eq hr⟩

end Abacus.Registry
