import Abacus.Library.Bundle
import Abacus.Library.Extras
import Abacus.Operation.Rule
import Abacus.Proofs.Registry.Reachable

/-!
# Operations that use their operands

An operation is thorough if it succeeds only after it has read or assigned every operand that it is
handed (`Operation.IsThorough`). What has been read had a value, and what has been assigned has one: so
the variables among the operands have a value afterwards (`Bindings.Settled`). Functions are
thorough, since their arguments are read before they run.

An effect settles what its parts settle (`Settles.bind`). So reading settles its operand and writing
its variable, computing and stepping settle the operands, and so does assignment (`settles_compute₂`,
`settles_assign`, `settles_step`). What fails settles anything. This makes all operations thorough that
are bundled or described by a rule (`Stock.isThorough`).
-/

namespace Abacus

/-! ## Variables that get a value -/

namespace Bindings

/-- Whether an operand has a value. -/
def HasValue (bindings : Bindings) (operand : Operand) : Prop :=
  ∃ value, bindings.value operand = .ok value

/-- Whether an operand is a number or a variable that is there. -/
def Covers (bindings : Bindings) : Operand → Prop
  | .literal _ => True
  | .var id => id.index < bindings.size

/-- No variable has been taken away, nor a value, and the given operands have one. -/
structure Settled (handed : List Operand) (before after : Bindings) : Prop where
  names : before.names <+: after.names
  kept : ∀ operand, before.HasValue operand → after.HasValue operand
  handed : ∀ operand ∈ handed, before.Covers operand → after.HasValue operand

variable {bindings : Bindings} {id : VarId}

theorem hasValue_literal (value : Float) : bindings.HasValue (.literal value) :=
  ⟨value, rfl⟩

theorem hasValue_var_iff : bindings.HasValue (.var id) ↔ (bindings.read? id).isSome = true := by
  cases h : bindings.read? id <;> simp [HasValue, value, h]

theorem hasValue_set {value : Float} {operand : Operand} (h : bindings.HasValue operand) :
    (bindings.set id value).HasValue operand := by
  cases operand with
  | literal other => exact hasValue_literal other
  | var other =>
    rw [hasValue_var_iff] at h ⊢
    simp only [read?, set, List.getElem?_modify] at h ⊢
    cases hs : bindings.slots[other.index]? with
    | none => simp [hs] at h
    | some slot =>
      simp only [hs, Option.bind_some, Option.map_eq_map, Option.map_some] at h ⊢
      split
      · rfl
      · exact h

theorem hasValue_set_self {value : Float} (h : bindings.Covers (.var id)) :
    (bindings.set id value).HasValue (.var id) := by
  rw [hasValue_var_iff, read?_set value id h, if_pos rfl]
  rfl

namespace Settled

variable {a b c : Bindings} {handed wider : List Operand}

theorem covers (h : Settled handed a b) {operand : Operand} (hc : a.Covers operand) :
    b.Covers operand := by
  cases operand with
  | literal => trivial
  | var id =>
    have hle := h.names.length_le
    rw [length_names, length_names] at hle
    exact Nat.lt_of_lt_of_le hc hle

theorem refl : Settled [] a a :=
  ⟨List.prefix_rfl, fun _ h => h, nofun⟩

theorem trans (h : Settled handed a b) (h' : Settled wider b c) : Settled (handed ++ wider) a c where
  names := h.names.trans h'.names
  kept operand ho := h'.kept operand (h.kept operand ho)
  handed operand ho hc := by
    rcases List.mem_append.1 ho with ho | ho
    · exact h'.kept operand (h.handed operand ho hc)
    · exact h'.handed operand ho (h.covers hc)

theorem mono (h : Settled wider a b) (hs : handed ⊆ wider) : Settled handed a b :=
  ⟨h.names, h.kept, fun operand ho => h.handed operand (hs ho)⟩

end Settled

end Bindings

/-! ## Effects -/

namespace Effect

variable {α β : Type} {handed wider : List Operand}

/-- Whether an effect that succeeds has read or assigned each of some operands: it takes no variable
and no value away, and these operands have a value afterwards. -/
def Settles (handed : List Operand) (effect : Effect α) : Prop :=
  ∀ before a after, effect before = .ok a after → before.Settled handed after

theorem Settles.mono {effect : Effect α} (h : effect.Settles wider) (hs : handed ⊆ wider) :
    effect.Settles handed :=
  fun before a after he => (h before a after he).mono hs

theorem settles_fail (error : EvalError) : (fail error : Effect α).Settles handed := nofun

theorem settles_pure (a : α) : (pure a : Effect α).Settles [] := by
  rintro before _ _ ⟨⟩
  exact .refl

theorem settles_read (operand : Operand) : (read operand).Settles [operand] := by
  intro before a after h
  cases hv : before.value operand with
  | error error =>
    rw [read_of_value_eq_error hv] at h
    cases h
  | ok value =>
    rw [read_of_value_eq_ok hv] at h
    cases h
    exact ⟨List.prefix_rfl, fun _ h => h, by simpa [Bindings.HasValue] using fun _ => ⟨a, hv⟩⟩

theorem settles_write (id : VarId) (value : Float) : (write id value).Settles [.var id] := by
  rintro before _ _ ⟨⟩
  exact ⟨by simp, fun _ h => Bindings.hasValue_set h, by simpa using Bindings.hasValue_set_self⟩

/-- One effect after the other settles what both of them settle. -/
theorem Settles.bind {x : Effect α} {f : α → Effect β} (hx : x.Settles handed)
    (hf : ∀ a, (f a).Settles wider) : (x >>= f).Settles (handed ++ wider) := by
  intro before b after h
  simp only [Bind.bind, EStateM.bind] at h
  split at h
  · rename_i a between ha
    exact (hx before a between ha).trans (hf a between b after h)
  · cases h

theorem Settles.map {x : Effect α} (hx : x.Settles handed) (f : α → β) :
    (f <$> x).Settles handed := by
  rw [map_eq_pure_bind]
  exact (hx.bind fun a => settles_pure (f a)).mono (List.subset_append_left _ _)

theorem settles_compute (f : Float → Float) (operand : Operand) :
    (compute f operand).Settles [operand] :=
  (settles_read operand).bind fun a => settles_pure (f a)

theorem settles_compute₂ (f : Float → Float → Float) (left right : Operand) :
    (compute₂ f left right).Settles [left, right] :=
  (settles_read left).bind fun a => (settles_read right).bind fun b => settles_pure (f a b)

theorem settles_assign (name : String) (left right : Operand) :
    (assign name left right).Settles [left, right] := by
  cases left with
  | literal value => exact settles_fail _
  | var id =>
    have h : (assign name (.var id) right).Settles [right, .var id] :=
      (settles_read right).bind fun value =>
        (settles_write id value).bind fun _ => settles_pure value
    exact h.mono (by simp)

theorem settles_step (name : String) (amount : Float) (operand : Operand) :
    (step name amount operand).Settles [operand] := by
  cases operand with
  | literal value => exact settles_fail _
  | var id =>
    have h : (step name amount (.var id)).Settles [.var id, .var id] :=
      (settles_read (.var id)).bind fun before =>
        (settles_write id (before + amount)).bind fun _ => settles_pure _
    exact h.mono (by simp)

theorem settles_stepAfter (name : String) (amount : Float) (operand : Operand) :
    (stepAfter name amount operand).Settles [operand] :=
  (settles_step name amount operand).map Prod.fst

theorem settles_stepBefore (name : String) (amount : Float) (operand : Operand) :
    (stepBefore name amount operand).Settles [operand] :=
  (settles_step name amount operand).map Prod.snd

end Effect

/-! ## Thorough operations -/

/-- Whether the action of a role reads or assigns every operand that it is handed, or else fails. -/
def Role.IsThorough : Role → Prop
  | .binary _ _ action => ∀ left right, (action left right).Settles [left, right]
  | .prefixOp _ action | .postfixOp action | .openBracket (some action) =>
    ∀ operand, (action operand).Settles [operand]
  | .function .. | .openBracket none | .closeBracket _ => True

/-- Whether an operation reads or assigns every operand that it is handed, or else fails. -/
def Operation.IsThorough (op : Operation) : Prop :=
  op.role.IsThorough

/-- Whether all operations of a registry are thorough. -/
def Registry.IsThorough (registry : Registry) : Prop :=
  ∀ name kind op, registry.find? name kind = some op → op.IsThorough

namespace Operation

variable {name : String} {priority : Int} {associativity : Associativity}

@[simp] theorem isThorough_binary {f : Float → Float → Float} :
    (binary name priority associativity f).IsThorough := fun left right =>
  Effect.settles_compute₂ f left right

@[simp] theorem isThorough_prefixOp {f : Float → Float} : (prefixOp name priority f).IsThorough :=
  fun operand => Effect.settles_compute f operand

@[simp] theorem isThorough_openBracket : (openBracket name).IsThorough := trivial

@[simp] theorem isThorough_closeBracket {opener : String} :
    (closeBracket name opener).IsThorough := trivial

@[simp] theorem isThorough_ofFormula {α : Type} [Formula α] {formula : α} :
    (ofFormula name formula).IsThorough := trivial

theorem isThorough_binaryOf (rule : BinaryRule) :
    (binaryOf name priority associativity rule).IsThorough := by
  intro left right
  cases rule with
  | assign => exact Effect.settles_assign name left right
  | reject => exact Effect.settles_fail _
  | _ => exact Effect.settles_compute₂ _ left right

/-- The action of a rule settles its operand if its step does. -/
theorem settles_run {stepping : UnaryAction} (hs : ∀ operand, (stepping operand).Settles [operand])
    (rule : UnaryRule) (operand : Operand) :
    (rule.run name stepping operand).Settles [operand] := by
  cases rule with
  | step => exact hs operand
  | reject => exact Effect.settles_fail _
  | _ => exact Effect.settles_compute _ operand

theorem isThorough_openBracketOf (rule : Option UnaryRule) :
    (openBracketOf name rule).IsThorough := by
  cases rule with
  | none => trivial
  | some rule => exact settles_run (Effect.settles_stepAfter name 1.0) rule

end Operation

/-! ## The bundle, the extras and the rules -/

namespace Library

theorem isThorough_bundle : ∀ op ∈ bundle, op.IsThorough := by
  have ha : assignment.IsThorough := Effect.settles_assign "="
  have hb : ∀ name amount, (stepBefore name amount).IsThorough := Effect.settles_stepBefore
  have hp : ∀ name amount, (stepAfter name amount).IsThorough := Effect.settles_stepAfter
  simp [bundle, arithmetic, power, trigonometry, logarithms, ha, hb, hp]

theorem isThorough_extras : ∀ op ∈ extras, op.IsThorough := by
  simp [extras]

/-- The operations that are bundled, extra, or described by a rule. -/
inductive Stock : Operation → Prop where
  | bundle {op : Operation} (h : op ∈ bundle) : Stock op
  | extra {op : Operation} (h : op ∈ extras) : Stock op
  | binaryOf (name : String) (priority : Int) (associativity : Associativity) (rule : BinaryRule) :
    Stock (.binaryOf name priority associativity rule)
  | prefixOf (name : String) (priority : Int) (rule : UnaryRule) : Stock (.prefixOf name priority rule)
  | postfixOf (name : String) (rule : UnaryRule) : Stock (.postfixOf name rule)
  | functionOf (name : String) (arity : Nat) (rule : FunctionRule) :
    Stock (.functionOf name arity rule)
  | openBracketOf (name : String) (rule : Option UnaryRule) : Stock (.openBracketOf name rule)
  | closeBracket (name opener : String) : Stock (.closeBracket name opener)

theorem Stock.isThorough {op : Operation} (h : Stock op) : op.IsThorough := by
  cases h with
  | bundle h => exact isThorough_bundle op h
  | extra h => exact isThorough_extras op h
  | binaryOf name priority associativity rule => exact Operation.isThorough_binaryOf rule
  | prefixOf name priority rule =>
    exact Operation.settles_run (Effect.settles_stepBefore name 1.0) rule
  | postfixOf name rule => exact Operation.settles_run (Effect.settles_stepAfter name 1.0) rule
  | openBracketOf name rule => exact Operation.isThorough_openBracketOf rule
  | functionOf | closeBracket => trivial

end Library

end Abacus
