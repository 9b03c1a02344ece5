import Abacus.Error
import Abacus.Variables.Store

/-!
# Bindings

The variables of one evaluation. A name gets a slot the first time it is met, filled with its stored
value if it has one, and every later occurrence of the name means that slot. Operands refer to a
variable by its slot, so that it is read when an operation runs and not when it is written down.

* `idOf?_eq_none_iff`: a name has a slot if it is among the names;
* `names_resolve`: resolving adds a name at the end, once;
* `names_set`, `read?_set`: setting changes the value of one slot and no name.
-/

namespace Abacus

/-- The number of a slot. -/
structure VarId where
  /-- The place of the slot, from zero. -/
  index : Nat
deriving DecidableEq

/-- A value that waits for an operation. -/
inductive Operand where
  /-- A number. -/
  | literal (value : Float)
  /-- The variable in a slot. -/
  | var (id : VarId)
deriving DecidableEq

/-- The slot of an operand that is a variable. -/
def Operand.var? : Operand → Option VarId
  | .literal _ => none
  | .var id => some id

/-- A variable of one evaluation. -/
structure Slot where
  /-- The name of the variable. -/
  name : String
  /-- Its value, if it has one. -/
  value : Option Float
deriving DecidableEq

/-- The variables of one evaluation, in the order in which they were met. -/
structure Bindings where
  /-- The slots, from number zero. -/
  slots : List Slot
deriving DecidableEq

namespace Bindings

/-- No variables. -/
def empty : Bindings := ⟨[]⟩

instance : EmptyCollection Bindings := ⟨empty⟩

instance : Inhabited Bindings := ⟨empty⟩

/-- The number of slots. -/
def size (bindings : Bindings) : Nat :=
  bindings.slots.length

/-- Whether there is no slot. -/
def isEmpty (bindings : Bindings) : Bool :=
  bindings.slots.isEmpty

/-- The names of the slots. -/
def names (bindings : Bindings) : List String :=
  bindings.slots.map Slot.name

/-- The variables and their values, in the order of the slots. -/
def toList (bindings : Bindings) : List (String × Option Float) :=
  bindings.slots.map fun slot => (slot.name, slot.value)

/-- The slot of a name. -/
def idOf? (bindings : Bindings) (name : String) : Option VarId :=
  (bindings.names.idxOf? name).map VarId.mk

/-- The name in a slot. A number without a slot has the empty name. -/
def name (bindings : Bindings) (id : VarId) : String :=
  bindings.names.getD id.index ""

/-- The value in a slot, if it has one. -/
def read? (bindings : Bindings) (id : VarId) : Option Float :=
  bindings.slots[id.index]?.bind Slot.value

/-- The slot of a name and the bindings that have it: a new slot takes the stored value. -/
def resolve (bindings : Bindings) (name : String) (store : Store) : VarId × Bindings :=
  match bindings.idOf? name with
  | some id => (id, bindings)
  | none => (⟨bindings.size⟩, ⟨bindings.slots ++ [⟨name, store.get? name⟩]⟩)

/-- Gives the variable in a slot a value. -/
def set (bindings : Bindings) (id : VarId) (value : Float) : Bindings :=
  ⟨bindings.slots.modify id.index fun slot => { slot with value := some value }⟩

/-- The number that an operand stands for. -/
def value (bindings : Bindings) : Operand → Except EvalError Float
  | .literal value => .ok value
  | .var id =>
    match bindings.read? id with
    | some value => .ok value
    | none => .error (.uninitializedVariable (bindings.name id))

variable {bindings : Bindings} {store : Store} {name : String} {id : VarId}

@[simp] theorem length_names : bindings.names.length = bindings.size := by
  simp [names, size]

@[simp] theorem value_literal (v : Float) : bindings.value (.literal v) = .ok v := rfl

theorem resolve_of_idOf?_eq_some (h : bindings.idOf? name = some id) :
    bindings.resolve name store = (id, bindings) := by
  simp [resolve, h]

theorem resolve_of_idOf?_eq_none (h : bindings.idOf? name = none) :
    bindings.resolve name store =
      (⟨bindings.size⟩, ⟨bindings.slots ++ [⟨name, store.get? name⟩]⟩) := by
  simp [resolve, h]

theorem idOf?_eq_none_iff : bindings.idOf? name = none ↔ name ∉ bindings.names := by
  simp [idOf?, List.idxOf?_eq_none_iff]

/-- Resolving adds a name that is not there at the end, and nothing else. -/
theorem names_resolve :
    (bindings.resolve name store).2.names =
      if name ∈ bindings.names then bindings.names else bindings.names ++ [name] := by
  by_cases h : name ∈ bindings.names
  · obtain ⟨id, hid⟩ := Option.ne_none_iff_exists'.1 (mt idOf?_eq_none_iff.1 (not_not_intro h))
    simp [resolve_of_idOf?_eq_some hid, h]
  · rw [resolve_of_idOf?_eq_none (idOf?_eq_none_iff.2 h), if_neg h]
    simp [names]

@[simp] theorem names_set (v : Float) : (bindings.set id v).names = bindings.names := by
  simp only [names, set]
  apply List.ext_getElem? fun i => ?_
  simp only [List.getElem?_map, List.getElem?_modify]
  cases bindings.slots[i]? <;> simp
  split <;> rfl

theorem read?_set (v : Float) (other : VarId) (h : id.index < bindings.size) :
    (bindings.set id v).read? other = if id = other then some v else bindings.read? other := by
  obtain ⟨i⟩ := id
  obtain ⟨j⟩ := other
  simp only [read?, set, List.getElem?_modify, VarId.mk.injEq, size] at h ⊢
  by_cases hij : i = j
  · subst hij
    simp [h]
  · simp [hij]

end Bindings

end Abacus
