import Abacus.Library.Bundle
import Abacus.Library.Extras
import Abacus.Operation.Rule
import Abacus.Proofs.Registry.Reachable

/-!
# What an operation fails with

The action of an operation may fail with any error. An operation is quiet if it leaves the errors about
the spelling of a text to those who read the text (`Operation.IsQuiet`): what it fails with is about
its operands. What only reads, writes and computes is quiet (`IsQuiet.bind`, `isQuiet_read`,
`isQuiet_write`). This makes the operations of every rule quiet (`isQuiet_binaryOf`,
`isQuiet_prefixOf`), and all bundled ones (`isQuiet_bundle`), as well as the extras.
-/

namespace Abacus

/-- Whether an error is about a spelling: a text or a numeral that cannot be read, or a name that
means nothing where it stands. -/
def EvalError.isSpelling : EvalError → Bool
  | .lex _ | .unknownOperator _ => true
  | _ => false

namespace Bindings

/-- An operand has no value if it is a variable without one. -/
theorem value_eq_error {bindings : Bindings} {operand : Operand} {error : EvalError}
    (h : bindings.value operand = .error error) : ∃ name, error = .uninitializedVariable name := by
  cases operand with
  | literal => cases h
  | var id =>
    rw [value] at h
    split at h
    · cases h
    · exact ⟨_, (Except.error.inj h).symm⟩

end Bindings

namespace Effect

variable {α β : Type}

/-- Whether an effect may fail with an error. -/
def Raises (effect : Effect α) (error : EvalError) : Prop :=
  ∃ before after, effect before = .error error after

/-- Whether an effect fails with no error about a spelling. -/
def IsQuiet (effect : Effect α) : Prop :=
  ∀ error, effect.Raises error → error.isSpelling = false

theorem raises_ofExcept {outcome : Except EvalError α} {error : EvalError} :
    (ofExcept outcome).Raises error ↔ outcome = .error error := by
  cases outcome with
  | ok value => exact ⟨nofun, nofun⟩
  | error other =>
    constructor
    · rintro ⟨before, after, h⟩
      cases h
      rfl
    · rintro ⟨⟩
      exact ⟨∅, ∅, rfl⟩

theorem isQuiet_fail {error : EvalError} (h : error.isSpelling = false) :
    (fail error : Effect α).IsQuiet := by
  intro other ho
  obtain rfl := Except.error.inj (raises_ofExcept.1 ho)
  exact h

theorem isQuiet_read (operand : Operand) : (read operand).IsQuiet := by
  rintro error ⟨before, after, h⟩
  obtain ⟨name, rfl⟩ := Bindings.value_eq_error (raises_ofExcept.1 ⟨before, after, h⟩)
  rfl

theorem isQuiet_write (id : VarId) (value : Float) : (write id value).IsQuiet := nofun

theorem isQuiet_pure (a : α) : (pure a : Effect α).IsQuiet := nofun

theorem IsQuiet.bind {x : Effect α} {f : α → Effect β} (hx : x.IsQuiet)
    (hf : ∀ a, (f a).IsQuiet) : (x >>= f).IsQuiet := by
  rintro error ⟨before, after, h⟩
  simp only [Bind.bind, EStateM.bind] at h
  split at h
  · rename_i a between _
    exact hf a error ⟨between, after, h⟩
  · rename_i hfail
    cases h
    exact hx error ⟨before, after, hfail⟩

theorem IsQuiet.map {x : Effect α} (hx : x.IsQuiet) (f : α → β) : (f <$> x).IsQuiet := by
  rw [map_eq_pure_bind]
  exact hx.bind fun a => isQuiet_pure (f a)

theorem isQuiet_compute (f : Float → Float) (operand : Operand) : (compute f operand).IsQuiet :=
  (isQuiet_read operand).bind fun a => isQuiet_pure (f a)

theorem isQuiet_compute₂ (f : Float → Float → Float) (left right : Operand) :
    (compute₂ f left right).IsQuiet :=
  (isQuiet_read left).bind fun a => (isQuiet_read right).bind fun b => isQuiet_pure (f a b)

theorem isQuiet_assign (name : String) (left right : Operand) :
    (assign name left right).IsQuiet := by
  cases left with
  | literal value => exact isQuiet_fail rfl
  | var id =>
    exact (isQuiet_read right).bind fun value =>
      (isQuiet_write id value).bind fun _ => isQuiet_pure value

theorem isQuiet_step (name : String) (amount : Float) (operand : Operand) :
    (step name amount operand).IsQuiet := by
  cases operand with
  | literal value => exact isQuiet_fail rfl
  | var id =>
    exact (isQuiet_read (.var id)).bind fun before =>
      (isQuiet_write id (before + amount)).bind fun _ => isQuiet_pure _

theorem isQuiet_stepAfter (name : String) (amount : Float) (operand : Operand) :
    (stepAfter name amount operand).IsQuiet :=
  (isQuiet_step name amount operand).map Prod.fst

theorem isQuiet_stepBefore (name : String) (amount : Float) (operand : Operand) :
    (stepBefore name amount operand).IsQuiet :=
  (isQuiet_step name amount operand).map Prod.snd

end Effect

/-! ## Quiet operations -/

/-- Whether the action of a role may fail with an error. -/
def Role.Raises (error : EvalError) : Role → Prop
  | .binary _ _ action => ∃ left right, (action left right).Raises error
  | .prefixOp _ action | .postfixOp action | .openBracket (some action) =>
    ∃ operand, (action operand).Raises error
  | .function _ body => ∃ arguments, body arguments = .error error
  | .openBracket none | .closeBracket _ => False

/-- Whether the action of an operation may fail with an error. -/
def Operation.Raises (op : Operation) (error : EvalError) : Prop :=
  op.role.Raises error

/-- Whether the action of an operation fails with no error about a spelling. -/
def Operation.IsQuiet (op : Operation) : Prop :=
  ∀ error, op.Raises error → error.isSpelling = false

/-- Whether all operations of a registry are quiet. -/
def Registry.IsQuiet (registry : Registry) : Prop :=
  ∀ name kind op, registry.find? name kind = some op → op.IsQuiet

theorem Registry.isQuiet_empty : (∅ : Registry).IsQuiet := by
  intro name kind op h
  rw [find?_empty] at h
  cases h

/-- A registry stays quiet while quiet operations are loaded. -/
theorem Registry.IsQuiet.load {registry : Registry} (h : registry.IsQuiet) {ops : List Operation}
    (ho : ∀ op ∈ ops, op.IsQuiet) : (registry.load ops).1.IsQuiet :=
  forall_find?_load h ho

namespace Formula

/-- Whether a formula fails with no error about a spelling. -/
def IsQuiet {α : Type} [Formula α] (formula : α) : Prop :=
  ∀ arguments error, evaluate formula arguments = .error error → error.isSpelling = false

@[simp] theorem isQuiet_nullary (value : Float) : IsQuiet value := nofun

@[simp] theorem isQuiet_fallible {outcome : Except EvalError Float} :
    IsQuiet outcome ↔ ∀ error, outcome = .error error → error.isSpelling = false :=
  ⟨fun h => h [], fun h _ => h⟩

/-- A formula that takes one more argument is quiet if it is so with every argument: without one it is
no expression. -/
@[simp] theorem isQuiet_succ {β : Type} [Formula β] {f : Float → β} :
    IsQuiet f ↔ ∀ a, IsQuiet (f a) := by
  constructor
  · exact fun h a arguments => h (a :: arguments)
  · intro h arguments error he
    cases arguments with
    | nil =>
      cases he
      rfl
    | cons a arguments => exact h a arguments error he

end Formula

namespace Operation

variable {name : String} {priority : Int} {associativity : Associativity}

/-- A binary operator is quiet if its action is, whatever the operands. -/
theorem isQuiet_of_binary {action : BinaryAction} (h : ∀ left right, (action left right).IsQuiet) :
    IsQuiet ⟨name, .binary priority associativity action⟩ :=
  fun error ⟨left, right, hr⟩ => h left right error hr

theorem isQuiet_of_prefixOp {action : UnaryAction} (h : ∀ operand, (action operand).IsQuiet) :
    IsQuiet ⟨name, .prefixOp priority action⟩ :=
  fun error ⟨operand, hr⟩ => h operand error hr

theorem isQuiet_of_postfixOp {action : UnaryAction} (h : ∀ operand, (action operand).IsQuiet) :
    IsQuiet ⟨name, .postfixOp action⟩ :=
  fun error ⟨operand, hr⟩ => h operand error hr

@[simp] theorem isQuiet_binary {f : Float → Float → Float} :
    (binary name priority associativity f).IsQuiet :=
  isQuiet_of_binary (Effect.isQuiet_compute₂ f)

@[simp] theorem isQuiet_prefixOp {f : Float → Float} : (prefixOp name priority f).IsQuiet :=
  isQuiet_of_prefixOp (Effect.isQuiet_compute f)

@[simp] theorem isQuiet_postfixOp {f : Float → Float} : (postfixOp name f).IsQuiet :=
  isQuiet_of_postfixOp (Effect.isQuiet_compute f)

@[simp] theorem isQuiet_openBracket : (openBracket name).IsQuiet := nofun

@[simp] theorem isQuiet_closeBracket {opener : String} : (closeBracket name opener).IsQuiet := nofun

@[simp] theorem isQuiet_ofFormula {α : Type} [Formula α] {formula : α} :
    (ofFormula name formula).IsQuiet ↔ Formula.IsQuiet formula :=
  ⟨fun h arguments error he => h error ⟨arguments, he⟩,
    fun h error ⟨arguments, he⟩ => h arguments error he⟩

theorem isQuiet_binaryOf (rule : BinaryRule) :
    (binaryOf name priority associativity rule).IsQuiet := by
  refine isQuiet_of_binary fun left right => ?_
  cases rule with
  | assign => exact Effect.isQuiet_assign name left right
  | reject => exact Effect.isQuiet_fail rfl
  | _ => exact Effect.isQuiet_compute₂ _ left right

/-- The action of a rule is quiet if its step is. -/
theorem isQuiet_run {stepping : UnaryAction} (hs : ∀ operand, (stepping operand).IsQuiet)
    (rule : UnaryRule) (operand : Operand) : (rule.run name stepping operand).IsQuiet := by
  cases rule with
  | step => exact hs operand
  | reject => exact Effect.isQuiet_fail rfl
  | _ => exact Effect.isQuiet_compute _ operand

theorem isQuiet_prefixOf (rule : UnaryRule) : (prefixOf name priority rule).IsQuiet :=
  isQuiet_of_prefixOp (isQuiet_run (Effect.isQuiet_stepBefore name 1.0) rule)

theorem isQuiet_postfixOf (rule : UnaryRule) : (postfixOf name rule).IsQuiet :=
  isQuiet_of_postfixOp (isQuiet_run (Effect.isQuiet_stepAfter name 1.0) rule)

theorem isQuiet_functionOf {arity : Nat} (rule : FunctionRule) :
    (functionOf name arity rule).IsQuiet := by
  rintro error ⟨arguments, h⟩
  cases rule with
  | reject =>
    cases h
    rfl
  | poly | count => cases h

theorem isQuiet_openBracketOf (rule : Option UnaryRule) : (openBracketOf name rule).IsQuiet := by
  cases rule with
  | none => exact nofun
  | some rule =>
    rintro error ⟨operand, h⟩
    exact isQuiet_run (Effect.isQuiet_stepAfter name 1.0) rule operand error h

end Operation

/-! ## The bundle and the extras -/

namespace Library

/-- What refuses some arguments and computes with the others is quiet if the refusal is. -/
theorem isSpelling_of_ite {c : Prop} [Decidable c] {refusal : EvalError} {value : Float}
    (hr : refusal.isSpelling = false) {error : EvalError}
    (h : (if c then .error refusal else .ok value : Except EvalError Float) = .error error) :
    error.isSpelling = false := by
  split at h
  · rwa [← Except.error.inj h]
  · cases h

theorem isQuiet_bundle : ∀ op ∈ bundle, op.IsQuiet := by
  have ha : assignment.IsQuiet := Operation.isQuiet_of_binary (Effect.isQuiet_assign "=")
  have hb : ∀ name amount, (stepBefore name amount).IsQuiet := fun name amount =>
    Operation.isQuiet_of_prefixOp (Effect.isQuiet_stepBefore name amount)
  have hp : ∀ name amount, (stepAfter name amount).IsQuiet := fun name amount =>
    Operation.isQuiet_of_postfixOp (Effect.isQuiet_stepAfter name amount)
  have hroot : ∀ x error, squareRoot x = .error error → error.isSpelling = false :=
    fun _ _ => isSpelling_of_ite rfl
  have hlog : ∀ base x error, logarithm base x = .error error → error.isSpelling = false :=
    fun _ _ _ => isSpelling_of_ite rfl
  simpa [bundle, arithmetic, power, trigonometry, logarithms, ha, hb, hp] using And.intro hroot hlog

theorem isQuiet_extras : ∀ op ∈ extras, op.IsQuiet := by
  have hdivision : ∀ a b error, safeDivision a b = .error error → error.isSpelling = false :=
    fun _ _ _ => isSpelling_of_ite rfl
  simpa [extras] using hdivision

end Library

end Abacus
