import Abacus.Evaluation.Frame
import Abacus.Operation.Formula
import Abacus.Operation.Rule
import Abacus.Proofs.Registry.Reachable

/-!
# What applying an operation touches

Applying an operation takes the operands it demands from the top of the stack and leaves the ones
below alone (`Workspace.run_eq_ok`). An operation is local when its effect writes at most to the
variables among the operands that it is handed (`Operation.IsLocal`). What reads its operands and
computes is local, and so are assignment and steps (`compute_staysWith`, `assign_staysWith`,
`stepBefore_staysWith`), which gives the operations of every rule (`isLocal_binaryOf`,
`isLocal_prefixOf`).
-/

namespace Abacus

/-! ## Variables that an effect leaves alone -/

/-- The variables are the same, and only the ones among the given operands may have other values. -/
structure Bindings.AgreeOutside (handed : List Operand) (before after : Bindings) : Prop where
  names : after.names = before.names
  read? : ∀ id, .var id ∉ handed → after.read? id = before.read? id

namespace Bindings.AgreeOutside

variable {handed wider : List Operand} {a b c : Bindings}

theorem refl : AgreeOutside handed a a :=
  ⟨rfl, fun _ _ => rfl⟩

theorem trans (h : AgreeOutside handed a b) (h' : AgreeOutside handed b c) :
    AgreeOutside handed a c :=
  ⟨h'.names.trans h.names, fun id hid => (h'.read? id hid).trans (h.read? id hid)⟩

theorem mono (h : AgreeOutside handed a b) (hs : handed ⊆ wider) : AgreeOutside wider a b :=
  ⟨h.names, fun id hid => h.read? id (mt (@hs _) hid)⟩

theorem set {id : VarId} (hid : .var id ∈ handed) (value : Float) :
    AgreeOutside handed a (a.set id value) := by
  refine ⟨names_set value, fun other ho => ?_⟩
  have hne : id.index ≠ other.index := by
    intro he
    obtain rfl : id = other := by
      cases id
      cases other
      exact congrArg VarId.mk he
    exact ho hid
  simp [Bindings.read?, Bindings.set, hne]

end Bindings.AgreeOutside

namespace Effect

variable {α β : Type} {handed : List Operand}

/-- The variables after an effect, whether or not it has failed. -/
def after (effect : Effect α) (bindings : Bindings) : Bindings :=
  match effect bindings with
  | .ok _ bindings | .error _ bindings => bindings

/-- Whether an effect writes at most to the variables among some operands. -/
def StaysWith (handed : List Operand) (effect : Effect α) : Prop :=
  ∀ bindings : Bindings, bindings.AgreeOutside handed (effect.after bindings)

theorem ofExcept_staysWith (outcome : Except EvalError α) :
    (ofExcept outcome).StaysWith handed := by
  intro bindings
  cases outcome <;> exact .refl

theorem read_staysWith (operand : Operand) : (read operand).StaysWith handed := fun bindings =>
  ofExcept_staysWith (bindings.value operand) bindings

theorem write_staysWith {id : VarId} (hid : .var id ∈ handed) (value : Float) :
    (write id value).StaysWith handed := fun _ => .set hid value

theorem StaysWith.bind {x : Effect α} {f : α → Effect β} (hx : x.StaysWith handed)
    (hf : ∀ a, (f a).StaysWith handed) : (x >>= f).StaysWith handed := by
  intro bindings
  have h := hx bindings
  simp only [after, Bind.bind, EStateM.bind] at h ⊢
  cases he : x bindings with
  | ok a bindings' =>
    rw [he] at h
    exact h.trans (hf a bindings')
  | error error bindings' =>
    rw [he] at h
    exact h

theorem pure_staysWith (a : α) : (pure a : Effect α).StaysWith handed := fun _ => .refl

theorem StaysWith.map {x : Effect α} (hx : x.StaysWith handed) (f : α → β) :
    (f <$> x).StaysWith handed := by
  rw [map_eq_pure_bind]
  exact hx.bind fun a => pure_staysWith (f a)

theorem compute_staysWith (f : Float → Float) (operand : Operand) :
    (compute f operand).StaysWith handed :=
  (read_staysWith operand).bind fun a => pure_staysWith (f a)

theorem compute₂_staysWith (f : Float → Float → Float) (left right : Operand) :
    (compute₂ f left right).StaysWith handed :=
  (read_staysWith left).bind fun a => (read_staysWith right).bind fun b => pure_staysWith (f a b)

theorem assign_staysWith (name : String) (left right : Operand) :
    (assign name left right).StaysWith [left, right] := by
  cases left with
  | literal value => exact ofExcept_staysWith (.error _)
  | var id =>
    exact (read_staysWith right).bind fun value =>
      (write_staysWith List.mem_cons_self value).bind fun _ => pure_staysWith value

theorem step_staysWith (name : String) (amount : Float) (operand : Operand) :
    (step name amount operand).StaysWith [operand] := by
  cases operand with
  | literal value => exact ofExcept_staysWith (.error _)
  | var id =>
    exact (read_staysWith (.var id)).bind fun before =>
      (write_staysWith List.mem_cons_self (before + amount)).bind fun _ => pure_staysWith _

theorem stepAfter_staysWith (name : String) (amount : Float) (operand : Operand) :
    (stepAfter name amount operand).StaysWith [operand] :=
  (step_staysWith name amount operand).map Prod.fst

theorem stepBefore_staysWith (name : String) (amount : Float) (operand : Operand) :
    (stepBefore name amount operand).StaysWith [operand] :=
  (step_staysWith name amount operand).map Prod.snd

end Effect

/-! ## Local operations -/

/-- Whether the action of a role writes at most to the variables that it is handed. -/
def Role.IsLocal : Role → Prop
  | .binary _ _ action => ∀ left right, (action left right).StaysWith [left, right]
  | .prefixOp _ action | .postfixOp action | .openBracket (some action) =>
    ∀ operand, (action operand).StaysWith [operand]
  | .function .. | .openBracket none | .closeBracket _ => True

/-- Whether an operation writes at most to the variables that it is handed. -/
def Operation.IsLocal (op : Operation) : Prop :=
  op.role.IsLocal

/-- Whether all operations of a registry are local. -/
def Registry.IsLocal (registry : Registry) : Prop :=
  ∀ name kind op, registry.find? name kind = some op → op.IsLocal

/-- The brackets of a local registry are local as well. -/
theorem Registry.IsLocal.bracket? {registry : Registry} (h : registry.IsLocal) {name : String}
    {op : Operation} (hb : registry.bracket? name = some op) : op.IsLocal := by
  rcases Option.or_eq_some_iff.1 hb with ho | ⟨_, hc⟩
  · exact h name .openBracket op ho
  · exact h name .closeBracket op hc

theorem Registry.isLocal_empty : (∅ : Registry).IsLocal := by
  intro name kind op h
  rw [find?_empty] at h
  cases h

/-- A registry stays local while local operations are loaded. -/
theorem Registry.IsLocal.load {registry : Registry} (h : registry.IsLocal) {ops : List Operation}
    (ho : ∀ op ∈ ops, op.IsLocal) : (registry.load ops).1.IsLocal :=
  forall_find?_load h ho

namespace Operation

variable {name : String} {priority : Int} {associativity : Associativity}

@[simp] theorem isLocal_binary {f : Float → Float → Float} :
    (binary name priority associativity f).IsLocal := fun left right =>
  Effect.compute₂_staysWith f left right

@[simp] theorem isLocal_prefixOp {f : Float → Float} : (prefixOp name priority f).IsLocal :=
  fun operand => Effect.compute_staysWith f operand

@[simp] theorem isLocal_postfixOp {f : Float → Float} : (postfixOp name f).IsLocal :=
  fun operand => Effect.compute_staysWith f operand

@[simp] theorem isLocal_openBracket : (openBracket name).IsLocal := trivial

@[simp] theorem isLocal_closeBracket {opener : String} : (closeBracket name opener).IsLocal :=
  trivial

@[simp] theorem isLocal_ofFormula {α : Type} [Formula α] {formula : α} :
    (ofFormula name formula).IsLocal :=
  trivial

theorem isLocal_binaryOf (rule : BinaryRule) :
    (binaryOf name priority associativity rule).IsLocal := by
  intro left right
  cases rule with
  | assign => exact Effect.assign_staysWith name left right
  | reject => exact Effect.ofExcept_staysWith (.error _)
  | _ => exact Effect.compute₂_staysWith _ left right

/-- The action of a rule stays with its operand if its step does. -/
theorem run_staysWith {stepping : UnaryAction} (hs : ∀ operand, (stepping operand).StaysWith [operand])
    (rule : UnaryRule) (operand : Operand) :
    (rule.run name stepping operand).StaysWith [operand] := by
  cases rule with
  | step => exact hs operand
  | reject => exact Effect.ofExcept_staysWith (.error _)
  | _ => exact Effect.compute_staysWith _ operand

theorem isLocal_prefixOf (rule : UnaryRule) : (prefixOf name priority rule).IsLocal :=
  run_staysWith (Effect.stepBefore_staysWith name 1.0) rule

theorem isLocal_postfixOf (rule : UnaryRule) : (postfixOf name rule).IsLocal :=
  run_staysWith (Effect.stepAfter_staysWith name 1.0) rule

theorem isLocal_functionOf {arity : Nat} (rule : FunctionRule) :
    (functionOf name arity rule).IsLocal := trivial

theorem isLocal_openBracketOf (rule : Option UnaryRule) : (openBracketOf name rule).IsLocal := by
  cases rule with
  | none => trivial
  | some rule => exact run_staysWith (Effect.stepAfter_staysWith name 1.0) rule

end Operation

/-! ## Applying -/

namespace Workspace

variable {w w' : Workspace} {op : Operation}

/-- An action that succeeds leaves its result on the operands below, and touches the variables that
the action touches. -/
theorem settle_eq_ok (handed : List Operand) {below : List Operand} {action : Effect Float}
    {bindings : Bindings}
    (h : settle below action bindings = .ok () w') :
    (∃ value, w'.operands = .literal value :: below) ∧
      (action.StaysWith handed → bindings.AgreeOutside handed w'.bindings) := by
  unfold settle at h
  split at h
  · rename_i value bindings' he
    cases h
    refine ⟨⟨value, rfl⟩, fun hl => ?_⟩
    have ha := hl bindings
    rwa [Effect.after, he] at ha
  · cases h

theorem apply_of_run (h : w.run op = .ok w') : op.apply w = .ok () w' := by
  unfold run at h
  split at h
  · rename_i ha
    rw [ha, Except.ok.inj h]
  · cases h

/-- What an operation that is applied has done: it has taken the operands `handed` from the top and
put `result` in their place, a number or the operand that it was handed, above the ones `below`. -/
structure Applied (op : Operation) (w w' : Workspace) (handed below : List Operand)
    (result : Operand) : Prop where
  before : w.operands = handed ++ below
  demand : handed.length = op.demand
  after : w'.operands = result :: below
  result : (∃ value, result = .literal value) ∨ handed = [result]
  bindings : op.IsLocal → w.bindings.AgreeOutside handed w'.bindings

/-- An operation that is applied takes the operands it demands and puts one in their place. -/
theorem run_eq_ok (hk : op.kind ≠ .closeBracket) (h : w.run op = .ok w') :
    ∃ handed below result, Applied op w w' handed below result := by
  obtain ⟨name, role⟩ := op
  obtain ⟨operands, bindings⟩ := w
  have hok : Operation.apply ⟨name, role⟩ ⟨operands, bindings⟩ = .ok () w' := apply_of_run h
  -- Every role but one puts the number that its action returns on top of what it leaves.
  have hsettle : ∀ (handed below : List Operand) (action : Effect Float),
      operands = handed ++ below → handed.length = role.demand →
      (role.IsLocal → action.StaysWith handed) → settle below action bindings = .ok () w' →
      ∃ handed below result, Applied ⟨name, role⟩ ⟨operands, bindings⟩ w' handed below result := by
    intro handed below action ho hd hl hs
    obtain ⟨⟨value, hv⟩, ha⟩ := settle_eq_ok handed hs
    exact ⟨handed, below, .literal value, ho, hd, hv, .inl ⟨value, rfl⟩, fun h => ha (hl h)⟩
  unfold Operation.apply at hok
  cases role with
  | binary priority associativity action => match operands, hok with
    | right :: left :: below, hok =>
      exact hsettle [right, left] below (action left right) rfl rfl
        (fun hl bindings => (hl left right bindings).mono (by simp)) hok
  | prefixOp priority action => match operands, hok with
    | operand :: below, hok => exact hsettle [operand] below (action operand) rfl rfl (· operand) hok
  | postfixOp action => match operands, hok with
    | operand :: below, hok => exact hsettle [operand] below (action operand) rfl rfl (· operand) hok
  | function arity body =>
    dsimp only at hok
    split at hok
    · rename_i ha
      exact hsettle (operands.take arity) (operands.drop arity) _ (List.take_append_drop ..).symm
        (List.length_take_of_le ha) (fun _ => Effect.ofExcept_staysWith _) hok
    · cases hok
  | openBracket transform => match transform, operands, hok with
    | some action, operand :: below, hok =>
      exact hsettle [operand] below (action operand) rfl rfl (· operand) hok
    | none, operand :: below, hok =>
      cases hok
      exact ⟨[operand], below, operand, rfl, rfl, rfl, .inr rfl, fun _ => .refl⟩
  | closeBracket => exact absurd rfl hk

end Workspace

/-- Applying a local operation touches no variable but the ones among the operands. -/
theorem Workspace.agreeOutside_of_run {op : Operation} {w w' : Workspace} (hl : op.IsLocal)
    (h : w.run op = .ok w') : w.bindings.AgreeOutside w.operands w'.bindings := by
  by_cases hk : op.kind = .closeBracket
  · obtain ⟨name, role⟩ := op
    cases role with
    | closeBracket opener =>
      obtain rfl := Except.ok.inj (show Except.ok w = .ok w' from h)
      exact .refl
    | _ => cases hk
  · obtain ⟨handed, below, result, ha⟩ := run_eq_ok hk h
    exact (ha.bindings hl).mono (by simp [ha.before])

/-- A pending operation that is applied was applied as any other. -/
theorem Frame.fire_eq_ok {frame : Frame} {w w' : Workspace} (h : frame.fire w = .ok w') :
    w.run frame.operation = .ok w' ∧
      (frame.operation.isScope = true → w.operands.length - frame.base = frame.operation.demand) := by
  simp only [Frame.fire] at h
  split at h
  · cases h
  · rename_i hless
    split at h
    · cases h
    · rename_i hmore
      refine ⟨h, fun hs => ?_⟩
      simp only [hs, true_and] at hless hmore
      omega

end Abacus
