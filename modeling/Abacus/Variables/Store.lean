import Std.Data.ExtTreeMap

/-!
# The variable store

The values that variables keep from one evaluation to the next. A store is a finite map: two stores
with the same entries are equal (`Store.ext_get?`), and `toList` lists the entries in ascending
order of their names.

* `get?_insert`, `get?_erase`, `get?_empty`: what each operation does to the entries;
* `mem_toList_iff`, `pairwise_toList`: the list holds exactly the entries, in order.
-/

namespace Abacus

/-- The stored variables and their values. -/
structure Store where
  /-- The value of each stored name. -/
  entries : Std.ExtTreeMap String Float

namespace Store

/-- The store without variables. -/
def empty : Store := ⟨∅⟩

instance : EmptyCollection Store := ⟨empty⟩

instance : Inhabited Store := ⟨empty⟩

/-- The value of a variable, if it is stored. -/
def get? (store : Store) (name : String) : Option Float :=
  store.entries[name]?

/-- Whether a variable is stored. -/
def contains (store : Store) (name : String) : Bool :=
  (store.get? name).isSome

/-- Stores a value under a name, whatever the name is. -/
def insert (store : Store) (name : String) (value : Float) : Store :=
  ⟨store.entries.insert name value⟩

/-- Takes a variable out of the store. -/
def erase (store : Store) (name : String) : Store :=
  ⟨store.entries.erase name⟩

/-- The number of stored variables. -/
def size (store : Store) : Nat :=
  store.entries.size

/-- Whether no variable is stored. -/
def isEmpty (store : Store) : Bool :=
  store.size = 0

/-- The stored variables in ascending order of their names. -/
def toList (store : Store) : List (String × Float) :=
  store.entries.toList

/-- Stores a list of variables one after the other, leaving out those without a value. -/
def insertMany (store : Store) (entries : List (String × Option Float)) : Store :=
  entries.foldl (fun store v => v.2.elim store (store.insert v.1)) store

variable {store : Store} {name other : String} {value : Float}

theorem ext_get? {s t : Store} (h : ∀ name, s.get? name = t.get? name) : s = t := by
  cases s
  cases t
  congr
  exact Std.ExtTreeMap.ext_getElem? fun {name} => h name

@[simp] theorem get?_empty : (∅ : Store).get? name = none :=
  Std.ExtTreeMap.getElem?_empty

theorem get?_insert :
    (store.insert name value).get? other =
      if name = other then some value else store.get? other := by
  simp [get?, insert, Std.ExtTreeMap.getElem?_insert]

theorem get?_erase :
    (store.erase name).get? other = if name = other then none else store.get? other := by
  simp [get?, erase, Std.ExtTreeMap.getElem?_erase]

@[simp] theorem insertMany_nil : store.insertMany [] = store := rfl

@[simp] theorem insertMany_cons (v : String × Option Float) (vs : List (String × Option Float)) :
    store.insertMany (v :: vs) = (v.2.elim store (store.insert v.1)).insertMany vs := rfl

theorem mem_toList_iff : (name, value) ∈ store.toList ↔ store.get? name = some value := by
  simp [toList, get?, Std.ExtTreeMap.mem_toList_iff_getElem?_eq_some]

/-- The names of the list ascend. -/
theorem pairwise_toList : store.toList.Pairwise fun a b => compare a.1 b.1 = .lt :=
  Std.ExtTreeMap.ordered_keys_toList

theorem length_toList : store.toList.length = store.size :=
  Std.ExtTreeMap.length_toList

end Store

end Abacus
