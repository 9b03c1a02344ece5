import Abacus.Operation.Basic

/-!
# The registry

The operations that an expression may use. One table holds them all, under their name and kind, and
the length of the longest name is kept beside it. A name belongs to one namespace; as an operator it
may be registered once for each kind of operator.

That one name has no two operators of a kind is built into the keys, and the order in which the
operators of a name were registered is not kept. A table for each namespace, with a list of operators
under each name, presents the same (`Registry.Namespaces`).

* `Registry.ext`: two registries with the same look-ups and the same longest name are equal;
* `find?_empty`, `find?_of_register`: what registering does to the look-ups;
* `register_eq_ok_iff`: when it succeeds.
-/

namespace Abacus

/-- The order of the table: by name, then by kind. -/
def compareEntry : String × Kind → String × Kind → Ordering :=
  compareLex (compareOn Prod.fst) (compareOn fun entry => entry.2.rank)

instance : Std.TransCmp compareEntry :=
  inferInstanceAs (Std.TransCmp (compareLex _ _))

instance : Std.LawfulEqCmp compareEntry where
  compare_self {entry} := by simp [compareEntry, compareLex, compareOn]
  eq_of_compare {a b} h := by
    simp only [compareEntry, compareLex_eq_eq, compareOn, Std.LawfulEqOrd.compare_eq_iff_eq,
      Kind.rank_inj] at h
    exact Prod.ext h.1 h.2

/-- The operations that are known, and the length of the longest of their names. -/
structure Registry where
  /-- The operation of each name and kind. -/
  table : Std.ExtTreeMap (String × Kind) Operation compareEntry
  /-- The number of bytes of the longest name, or zero if there is none. -/
  longestName : Nat

namespace Registry

/-- The registry without operations. -/
def empty : Registry := ⟨∅, 0⟩

instance : EmptyCollection Registry := ⟨empty⟩

instance : Inhabited Registry := ⟨empty⟩

/-! ## Look-ups -/

/-- The operation of a name and a kind. -/
def find? (registry : Registry) (name : String) (kind : Kind) : Option Operation :=
  registry.table[(name, kind)]?

/-- The bracket of a name, an opening or a closing one. -/
def bracket? (registry : Registry) (name : String) : Option Operation :=
  (registry.find? name .openBracket).or (registry.find? name .closeBracket)

/-- Whether a function has the name. -/
def isFunction (registry : Registry) (name : String) : Bool :=
  (registry.find? name .function).isSome

/-- Whether an operator of any kind has the name. -/
def isOperator (registry : Registry) (name : String) : Bool :=
  (registry.find? name .binary).isSome || (registry.find? name .prefixOp).isSome ||
    (registry.find? name .postfixOp).isSome

/-- Whether a bracket has the name. -/
def isBracket (registry : Registry) (name : String) : Bool :=
  (registry.bracket? name).isSome

/-- Whether any operation has the name. -/
def contains (registry : Registry) (name : String) : Bool :=
  registry.isFunction name || registry.isOperator name || registry.isBracket name

/-- All operations, in ascending order of their names. -/
def operations (registry : Registry) : List Operation :=
  registry.table.toList.map Prod.snd

/-- The number of operations. -/
def size (registry : Registry) : Nat :=
  registry.table.size

/-- Whether there is no operation. -/
def isEmpty (registry : Registry) : Bool :=
  registry.size = 0

/-! ## Registering -/

/-- Whether the name of an operation is taken: for an operator by a function, a bracket or an
operator of the same kind, for any other operation by whatever has the name. -/
def collides (registry : Registry) (op : Operation) : Bool :=
  if op.kind.isOperator then
    registry.isFunction op.name || registry.isBracket op.name ||
      (registry.find? op.name op.kind).isSome
  else registry.contains op.name

/-- Adds an operation under its name and kind. -/
def insert (registry : Registry) (op : Operation) : Registry where
  table := registry.table.insert (op.name, op.kind) op
  longestName := max registry.longestName op.name.utf8ByteSize

/-- Adds an operation whose name is valid and free. -/
def register (registry : Registry) (op : Operation) : Except RegistryError Registry :=
  if !Name.isValid op.kind.nameClass op.name then .error (.invalidName op.kind.nameClass op.name)
  else if registry.collides op then .error (.nameCollision op.name)
  else .ok (registry.insert op)

/-- Registers a list of operations up to the first one that fails, and returns its error. The ones
before it stay. -/
def load (registry : Registry) : List Operation → Registry × Option RegistryError
  | [] => (registry, none)
  | op :: ops =>
    match registry.register op with
    | .ok registry => registry.load ops
    | .error error => (registry, some error)

/-- Takes all operations out. -/
def clear (_ : Registry) : Registry := ∅

variable {registry : Registry} {op : Operation} {name : String} {kind : Kind}

theorem ext {r s : Registry} (hfind : ∀ name kind, r.find? name kind = s.find? name kind)
    (hlongest : r.longestName = s.longestName) : r = s := by
  cases r
  cases s
  simp only [mk.injEq]
  exact ⟨Std.ExtTreeMap.ext_getElem? fun {entry} => hfind entry.1 entry.2, hlongest⟩

@[simp] theorem find?_empty : (∅ : Registry).find? name kind = none :=
  Std.ExtTreeMap.getElem?_empty

@[simp] theorem longestName_empty : (∅ : Registry).longestName = 0 := rfl

theorem find?_insert :
    (registry.insert op).find? name kind =
      if op.name = name ∧ op.kind = kind then some op else registry.find? name kind := by
  simp [find?, insert, Std.ExtTreeMap.getElem?_insert]

@[simp] theorem longestName_insert :
    (registry.insert op).longestName = max registry.longestName op.name.utf8ByteSize := rfl

theorem register_eq_ok_iff {result : Registry} :
    registry.register op = .ok result ↔
      Name.isValid op.kind.nameClass op.name = true ∧ registry.collides op = false ∧
        result = registry.insert op := by
  simp only [register]
  cases Name.isValid op.kind.nameClass op.name <;> cases registry.collides op <;>
    simp [@eq_comm _ result]

/-- A successful registration changes the look-up of one name and kind. -/
theorem find?_of_register {result : Registry} (h : registry.register op = .ok result) :
    result.find? name kind =
      if op.name = name ∧ op.kind = kind then some op else registry.find? name kind := by
  rw [(register_eq_ok_iff.1 h).2.2, find?_insert]

@[simp] theorem load_nil : registry.load [] = (registry, none) := rfl

theorem load_cons_of_ok {result : Registry} (h : registry.register op = .ok result)
    (ops : List Operation) : registry.load (op :: ops) = result.load ops := by
  simp [load, h]

theorem load_cons_of_error {error : RegistryError} (h : registry.register op = .error error)
    (ops : List Operation) : registry.load (op :: ops) = (registry, some error) := by
  simp [load, h]

end Registry

end Abacus
