import Abacus.Library.Bundle
import Abacus.Library.Extras
import Abacus.Proofs.Operation.Local
import Abacus.Proofs.Operation.Quiet
import Abacus.Proofs.Registry.Reachable

/-!
# The registry of the bundle

All bundled operations register (`bundled_eq_ok`), so a look-up finds the bundled operation of the
name (`find?_registry`). All of them are local (`isLocal_registry`) and quiet (`isQuiet_registry`), and
so are the extras.
-/

namespace Abacus

namespace Library

/-- The registry of all bundled operations. -/
def registry : Registry :=
  ((∅ : Registry).load bundle).1

theorem load_bundle : ((∅ : Registry).load bundle).2 = none := by decide +kernel

theorem reachable_registry : registry.Reachable := by
  rw [registry]
  exact Registry.Reachable.empty.load bundle

theorem find?_registry (name : String) (kind : Kind) :
    registry.find? name kind = bundle.reverse.find? fun op => op.name = name ∧ op.kind = kind := by
  rw [registry, Registry.find?_load load_bundle, Registry.find?_empty, Option.or_none]

theorem isLocal_bundle : ∀ op ∈ bundle, op.IsLocal := by
  have ha : assignment.IsLocal := Effect.assign_staysWith "="
  have hb : ∀ name amount, (stepBefore name amount).IsLocal := Effect.stepBefore_staysWith
  have hp : ∀ name amount, (stepAfter name amount).IsLocal := Effect.stepAfter_staysWith
  simp [bundle, arithmetic, power, trigonometry, logarithms, ha, hb, hp]

theorem isLocal_extras : ∀ op ∈ extras, op.IsLocal := by
  simp [extras]

theorem isLocal_registry : registry.IsLocal := by
  rw [registry]
  exact Registry.isLocal_empty.load isLocal_bundle

theorem isQuiet_registry : registry.IsQuiet := by
  rw [registry]
  exact Registry.isQuiet_empty.load isQuiet_bundle

end Library

theorem Registry.bundled_eq_ok : bundled = .ok Library.registry := by
  have h := Library.load_bundle
  unfold bundled
  split
  · rename_i registry hl
    rw [Library.registry, hl]
  · rename_i error hl
    rw [hl] at h
    cases h

end Abacus
