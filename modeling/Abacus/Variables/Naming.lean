import Abacus.Registry
import Abacus.Variables.Store

/-!
# Naming a variable

From outside an expression, a variable can be stored under any name that an expression could read it
by: a valid variable name that no operation has.

* `set_eq_ok_iff`: when a variable can be stored, and what the store is then.
-/

namespace Abacus.Store

/-- Whether an expression over the registry can name the variable. -/
def accepts (registry : Registry) (name : String) : Bool :=
  Name.isVariable name && !registry.contains name

/-- Stores a value under a name that the registry leaves free. -/
def set (store : Store) (registry : Registry) (name : String) (value : Float) :
    Except StoreError Store :=
  if accepts registry name then .ok (store.insert name value) else .error (.invalidName name)

theorem set_eq_ok_iff {store result : Store} {registry : Registry} {name : String} {value : Float} :
    store.set registry name value = .ok result ↔
      accepts registry name = true ∧ result = store.insert name value := by
  simp only [set]
  cases accepts registry name <;> simp [@eq_comm _ result]

end Abacus.Store
