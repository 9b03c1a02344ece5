import Abacus.Proofs.Library.Registered

/-!
# What an operation writes to

Of the bundled operations only assignment and steps write to a variable, and only to the leftmost of
the operands that they are handed (`Library.targets`). All others read their operands and compute.

* `Role.WritesWithin`: whether an operation writes at most to some of its operands;
* `Workspace.agreeOutside_of_writesWithin`: what is the same after it has been applied;
* `Library.keepsToTargets_bundle`: the bundled operations write at most to their targets.
-/

namespace Abacus

/-- Whether the action of a role writes at most to some of the variables that it is handed. They are
told by all that it is handed, the last operand first. -/
def Role.WritesWithin (targets : List Operand → List Operand) : Role → Prop
  | .binary _ _ action => ∀ left right, (action left right).StaysWith (targets [right, left])
  | .prefixOp _ action | .postfixOp action | .openBracket (some action) =>
    ∀ operand, (action operand).StaysWith (targets [operand])
  | .function .. | .openBracket none | .closeBracket _ => True

/-- Assignment writes at most to its left operand. -/
theorem Effect.assign_staysWith_left (name : String) (left right : Operand) :
    (assign name left right).StaysWith [left] := by
  cases left with
  | literal value => exact ofExcept_staysWith (.error _)
  | var id =>
    exact (read_staysWith right).bind fun value =>
      (write_staysWith List.mem_cons_self value).bind fun _ => pure_staysWith value

/-- Applying an operation changes only what the operation writes to. -/
theorem Workspace.agreeOutside_of_writesWithin {targets : List Operand → List Operand}
    {op : Operation} {w w' : Workspace} (hl : op.role.WritesWithin targets) (h : w.run op = .ok w') :
    w.bindings.AgreeOutside (targets (w.operands.take op.demand)) w'.bindings := by
  obtain ⟨name, role⟩ := op
  obtain ⟨operands, bindings⟩ := w
  have hok : Operation.apply ⟨name, role⟩ ⟨operands, bindings⟩ = .ok () w' := apply_of_run h
  unfold Operation.apply at hok
  cases role with
  | binary priority associativity action => match operands, hok with
    | right :: left :: below, hok => exact (settle_eq_ok _ hok).2 (hl left right)
  | prefixOp priority action => match operands, hok with
    | operand :: below, hok => exact (settle_eq_ok _ hok).2 (hl operand)
  | postfixOp action => match operands, hok with
    | operand :: below, hok => exact (settle_eq_ok _ hok).2 (hl operand)
  | function arity body =>
    dsimp only at hok
    split at hok
    · exact (settle_eq_ok _ hok).2 (Effect.ofExcept_staysWith _)
    · cases hok
  | openBracket transform => match transform, operands, hok with
    | some action, operand :: below, hok => exact (settle_eq_ok _ hok).2 (hl operand)
    | none, operand :: below, hok =>
      cases hok
      exact .refl
  | closeBracket =>
    cases hok
    exact .refl

namespace Library

/-- The names of assignment and of the steps. -/
def writers : List String := ["=", "++", "--"]

/-- What the bundled operation of a name writes to, of the operands that it is handed, the last one
first: assignment and steps write to the leftmost operand. -/
def targets (name : String) (handed : List Operand) : List Operand :=
  if name ∈ writers then handed.getLast?.toList else []

/-- Whether an operation writes at most to the targets of its name. -/
def KeepsToTargets (op : Operation) : Prop :=
  op.role.WritesWithin (targets op.name)

variable {name : String}

theorem targets_of_mem (h : name ∈ writers) (handed : List Operand) :
    targets name handed = handed.getLast?.toList := if_pos h

theorem keepsToTargets_binary {priority : Int} {associativity : Associativity}
    {f : Float → Float → Float} : KeepsToTargets (.binary name priority associativity f) :=
  fun left right => Effect.compute₂_staysWith f left right

theorem keepsToTargets_prefixOp {priority : Int} {f : Float → Float} :
    KeepsToTargets (.prefixOp name priority f) :=
  fun operand => Effect.compute_staysWith f operand

theorem keepsToTargets_assignment : KeepsToTargets assignment := Effect.assign_staysWith_left "="

theorem keepsToTargets_stepBefore (h : name ∈ writers) (amount : Float) :
    KeepsToTargets (stepBefore name amount) := by
  intro operand
  have ht : targets (stepBefore name amount).name [operand] = [operand] := targets_of_mem h _
  rw [ht]
  exact Effect.stepBefore_staysWith name amount operand

theorem keepsToTargets_stepAfter (h : name ∈ writers) (amount : Float) :
    KeepsToTargets (stepAfter name amount) := by
  intro operand
  have ht : targets (stepAfter name amount).name [operand] = [operand] := targets_of_mem h _
  rw [ht]
  exact Effect.stepAfter_staysWith name amount operand

theorem keepsToTargets_ofFormula {α : Type} [Formula α] {formula : α} :
    KeepsToTargets (.ofFormula name formula) := trivial

theorem keepsToTargets_bundle : ∀ op ∈ bundle, KeepsToTargets op := by
  have hopen : KeepsToTargets (.openBracket "(") := trivial
  have hclose : KeepsToTargets (.closeBracket ")" "(") := trivial
  obtain ⟨hplus, hminus⟩ : "++" ∈ writers ∧ "--" ∈ writers := by decide
  simp [bundle, arithmetic, power, trigonometry, logarithms, hopen, hclose, keepsToTargets_binary,
    keepsToTargets_prefixOp, keepsToTargets_assignment, keepsToTargets_stepBefore hplus,
    keepsToTargets_stepBefore hminus, keepsToTargets_stepAfter hplus, keepsToTargets_stepAfter hminus,
    keepsToTargets_ofFormula]

/-- The operations that are named as assignment and steps are operators. -/
theorem isOperator_of_mem_writers : ∀ op ∈ bundle, op.name ∈ writers → op.kind.isOperator = true := by
  decide

/-- A look-up in the registry of the bundle finds a bundled operation. -/
theorem mem_bundle_of_find? {kind : Kind} {op : Operation} (h : registry.find? name kind = some op) :
    op ∈ bundle := by
  rw [find?_registry] at h
  exact List.mem_reverse.1 (List.mem_of_find?_eq_some h)

end Library

end Abacus
