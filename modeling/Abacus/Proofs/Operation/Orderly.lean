import Abacus.Proofs.Operation.Procedure
import Abacus.Proofs.Operation.StackEffect
import Abacus.Proofs.Operation.Thorough

/-!
# Operations that only access variables

An effect is orderly if it is a procedure that uses only the slots that it is handed and those to
which it resolves names itself (`Effect.IsOrderly`). It need not succeed: what it did before it failed
are accesses as well. One orderly effect after the other is orderly (`Effect.IsOrderly.bind`), and so
is what reads, writes and computes. Functions are orderly, since all that is done with their arguments
is to read them. So all operations are orderly that are bundled or described by a rule
(`Library.Stock.isOrderly`).
-/

namespace Abacus

/-- The slots of the variables among some operands. -/
def slotsOf (handed : List Operand) : List VarId :=
  handed.filterMap Operand.var?

theorem mem_slotsOf_iff {handed : List Operand} {id : VarId} :
    id ∈ slotsOf handed ↔ .var id ∈ handed := by
  rw [slotsOf, List.mem_filterMap]
  constructor
  · rintro ⟨operand, hm, ho⟩
    cases operand with
    | literal => cases ho
    | var other => rwa [← Option.some.inj ho]
  · intro hm
    exact ⟨_, hm, rfl⟩

/-! ## Effects -/

namespace Effect

variable {α β : Type} {handed : List Operand}

/-- Whether an effect is a procedure that uses no slots but those that it is handed and those that it
is returned itself. -/
def IsOrderly (handed : List Operand) (effect : Effect α) : Prop :=
  ∃ procedure : Procedure α, procedure.run = effect ∧
    ∀ before, Accesses (slotsOf handed) before (procedure.log before) (effect.after before)

theorem isOrderly_ofExcept (outcome : Except EvalError α) :
    (ofExcept outcome).IsOrderly handed := by
  refine ⟨.done outcome, rfl, fun before => ?_⟩
  cases outcome <;> exact .nil

theorem isOrderly_pure (a : α) : (pure a : Effect α).IsOrderly handed :=
  ⟨.done (.ok a), rfl, fun _ => .nil⟩

theorem isOrderly_read {operand : Operand} (h : operand ∈ handed) :
    (read operand).IsOrderly handed := by
  refine ⟨.read operand .done, rfl, fun before => ?_⟩
  have hafter : (read operand).after before = before := by
    cases hv : before.value operand with
    | ok value => rw [after, read_of_value_eq_ok hv]
    | error error => rw [after, read_of_value_eq_error hv]
  rw [hafter]
  refine .concat .nil (fun id hid => .inl (mem_slotsOf_iff.2 ?_)) (.read before operand)
  cases operand with
  | literal => cases hid
  | var other => rwa [List.mem_singleton.1 hid]

theorem isOrderly_write {id : VarId} (h : .var id ∈ handed) (value : Float) :
    (write id value).IsOrderly handed := by
  refine ⟨.write id value (.done (.ok ())), rfl, fun before => ?_⟩
  refine .concat .nil (fun other hid => .inl (mem_slotsOf_iff.2 ?_)) (.write before id value)
  rwa [List.mem_singleton.1 hid]

/-- The accesses of one effect after the other are those of the one and then those of the other. -/
theorem IsOrderly.bind {x : Effect α} {f : α → Effect β} (hx : x.IsOrderly handed)
    (hf : ∀ a, (f a).IsOrderly handed) : (x >>= f).IsOrderly handed := by
  obtain ⟨first, rfl, hfirst⟩ := hx
  choose second hrun hsecond using hf
  obtain rfl : (fun a => (second a).run) = f := funext hrun
  refine ⟨first.bind second, Procedure.run_bind, fun before => ?_⟩
  have hlog := hfirst before
  simp only [after, Bind.bind, EStateM.bind] at hlog ⊢
  cases he : first.run before with
  | ok a between =>
    rw [he] at hlog
    rw [Procedure.log_bind_of_run_eq_ok he]
    exact hlog.append ((hsecond a between).mono (List.subset_append_left _ _))
  | error error between =>
    rw [he] at hlog
    rw [Procedure.log_bind_of_run_eq_error he]
    exact hlog

theorem IsOrderly.map {x : Effect α} (hx : x.IsOrderly handed) (f : α → β) :
    (f <$> x).IsOrderly handed := by
  rw [map_eq_pure_bind]
  exact hx.bind fun a => isOrderly_pure (f a)

theorem isOrderly_mapM_read {arguments : List Operand} (h : arguments ⊆ handed) :
    (arguments.mapM read).IsOrderly handed := by
  induction arguments with
  | nil => exact isOrderly_pure []
  | cons argument arguments ih =>
    rw [List.mapM_cons]
    refine (isOrderly_read (h List.mem_cons_self)).bind fun value => ?_
    exact (ih fun _ hm => h (List.mem_cons_of_mem _ hm)).bind fun values => isOrderly_pure _

theorem isOrderly_compute (f : Float → Float) (operand : Operand) :
    (compute f operand).IsOrderly [operand] :=
  (isOrderly_read List.mem_cons_self).bind fun a => isOrderly_pure (f a)

theorem isOrderly_compute₂ (f : Float → Float → Float) (left right : Operand) :
    (compute₂ f left right).IsOrderly [left, right] :=
  (isOrderly_read List.mem_cons_self).bind fun a =>
    (isOrderly_read (List.mem_cons_of_mem _ List.mem_cons_self)).bind fun b => isOrderly_pure (f a b)

theorem isOrderly_assign (name : String) (left right : Operand) :
    (assign name left right).IsOrderly [left, right] := by
  cases left with
  | literal value => exact isOrderly_ofExcept (.error _)
  | var id =>
    exact (isOrderly_read (List.mem_cons_of_mem _ List.mem_cons_self)).bind fun value =>
      (isOrderly_write List.mem_cons_self value).bind fun _ => isOrderly_pure value

theorem isOrderly_step (name : String) (amount : Float) (operand : Operand) :
    (step name amount operand).IsOrderly [operand] := by
  cases operand with
  | literal value => exact isOrderly_ofExcept (.error _)
  | var id =>
    exact (isOrderly_read List.mem_cons_self).bind fun before =>
      (isOrderly_write List.mem_cons_self (before + amount)).bind fun _ => isOrderly_pure _

theorem isOrderly_stepAfter (name : String) (amount : Float) (operand : Operand) :
    (stepAfter name amount operand).IsOrderly [operand] :=
  (isOrderly_step name amount operand).map Prod.fst

theorem isOrderly_stepBefore (name : String) (amount : Float) (operand : Operand) :
    (stepBefore name amount operand).IsOrderly [operand] :=
  (isOrderly_step name amount operand).map Prod.snd

end Effect

/-! ## Orderly operations -/

/-- Whether the action of a role is a procedure that uses only the slots that it is handed. -/
def Role.IsOrderly : Role → Prop
  | .binary _ _ action => ∀ left right, (action left right).IsOrderly [left, right]
  | .prefixOp _ action | .postfixOp action | .openBracket (some action) =>
    ∀ operand, (action operand).IsOrderly [operand]
  | .function .. | .openBracket none | .closeBracket _ => True

/-- Whether all that an operation does is a procedure that uses only the slots that it is handed. -/
def Operation.IsOrderly (op : Operation) : Prop :=
  op.role.IsOrderly

namespace Operation

/-- What an orderly operation does with the operands that it is handed is orderly. -/
theorem IsOrderly.effect {op : Operation} {handed : List Operand} {effect : Effect Float}
    (h : op.IsOrderly) (he : op.effect? handed = some effect) : effect.IsOrderly handed := by
  obtain ⟨name, role⟩ := op
  cases role with
  | binary priority associativity action => match handed, he with
    | [left, right], rfl => exact h left right
  | prefixOp priority action => match handed, he with
    | [operand], rfl => exact h operand
  | postfixOp action => match handed, he with
    | [operand], rfl => exact h operand
  | function arity body =>
    cases he
    exact (Effect.isOrderly_mapM_read (List.Subset.refl _)).bind fun values =>
      Effect.isOrderly_ofExcept _
  | openBracket transform => match transform, handed, he with
    | some action, [operand], rfl => exact h operand
  | closeBracket opener => cases he

variable {name : String} {priority : Int} {associativity : Associativity}

@[simp] theorem isOrderly_binary {f : Float → Float → Float} :
    (binary name priority associativity f).IsOrderly := fun left right =>
  Effect.isOrderly_compute₂ f left right

@[simp] theorem isOrderly_prefixOp {f : Float → Float} : (prefixOp name priority f).IsOrderly :=
  fun operand => Effect.isOrderly_compute f operand

@[simp] theorem isOrderly_openBracket : (openBracket name).IsOrderly := trivial

@[simp] theorem isOrderly_closeBracket {opener : String} : (closeBracket name opener).IsOrderly :=
  trivial

@[simp] theorem isOrderly_ofFormula {α : Type} [Formula α] {formula : α} :
    (ofFormula name formula).IsOrderly := trivial

theorem isOrderly_binaryOf (rule : BinaryRule) :
    (binaryOf name priority associativity rule).IsOrderly := by
  intro left right
  cases rule with
  | assign => exact Effect.isOrderly_assign name left right
  | reject => exact Effect.isOrderly_ofExcept (.error _)
  | _ => exact Effect.isOrderly_compute₂ _ left right

/-- The action of a rule is orderly if its step is. -/
theorem isOrderly_run {stepping : UnaryAction}
    (hs : ∀ operand, (stepping operand).IsOrderly [operand]) (rule : UnaryRule) (operand : Operand) :
    (rule.run name stepping operand).IsOrderly [operand] := by
  cases rule with
  | step => exact hs operand
  | reject => exact Effect.isOrderly_ofExcept (.error _)
  | _ => exact Effect.isOrderly_compute _ operand

end Operation

/-! ## The bundle, the extras and the rules -/

namespace Library

theorem isOrderly_bundle : ∀ op ∈ bundle, op.IsOrderly := by
  have ha : assignment.IsOrderly := Effect.isOrderly_assign "="
  have hb : ∀ name amount, (stepBefore name amount).IsOrderly := Effect.isOrderly_stepBefore
  have hp : ∀ name amount, (stepAfter name amount).IsOrderly := Effect.isOrderly_stepAfter
  simp [bundle, arithmetic, power, trigonometry, logarithms, ha, hb, hp]

theorem isOrderly_extras : ∀ op ∈ extras, op.IsOrderly := by
  simp [extras]

theorem Stock.isOrderly {op : Operation} (h : Stock op) : op.IsOrderly := by
  cases h with
  | bundle h => exact isOrderly_bundle op h
  | extra h => exact isOrderly_extras op h
  | binaryOf name priority associativity rule => exact Operation.isOrderly_binaryOf rule
  | prefixOf name priority rule =>
    exact Operation.isOrderly_run (Effect.isOrderly_stepBefore name 1.0) rule
  | postfixOf name rule => exact Operation.isOrderly_run (Effect.isOrderly_stepAfter name 1.0) rule
  | openBracketOf name rule =>
    cases rule with
    | none => trivial
    | some rule => exact Operation.isOrderly_run (Effect.isOrderly_stepAfter name 1.0) rule
  | functionOf | closeBracket => trivial

end Library

end Abacus
