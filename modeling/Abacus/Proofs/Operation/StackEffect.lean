import Mathlib.Data.List.Forall2
import Abacus.Operation.Formula
import Abacus.Proofs.Expression.Value

/-!
# The effect of an operation on the stack

All kinds of operations have one law (`apply_stackEffect`). An operation that finds fewer operands than
it demands fails, and nothing has happened. Otherwise it is handed the operands it demands in the order
in which they were pushed, and does something with them (`Operation.effect?`): if that succeeds, the
result has taken their place, and if it fails, they are gone. What is below them stays. Brackets that do
nothing leave the stack as it is.

* `apply_of_append`: applying an operation to operands that are handed to it;
* `apply_function`: a function changes no variable, and runs only if all its arguments have values.
-/

namespace Abacus

/-- A list is read if each of its members is. -/
theorem forall₂_of_mapM_eq_ok {α β ε : Type} {f : α → Except ε β} {as : List α} {bs : List β}
    (h : as.mapM f = .ok bs) :
    List.Forall₂ (fun a b => f a = .ok b) as bs := by
  induction as generalizing bs with
  | nil =>
    obtain rfl := Except.ok.inj h
    exact .nil
  | cons a as ih =>
    rw [List.mapM_cons] at h
    obtain ⟨b, hb, h⟩ := bind_eq_ok.1 h
    obtain ⟨bs, hbs, h⟩ := bind_eq_ok.1 h
    obtain rfl := Except.ok.inj h
    exact .cons hb (ih hbs)

/-- Whether all variables on the stack have a slot. -/
def Workspace.InRange (w : Workspace) : Prop :=
  ∀ id, .var id ∈ w.operands → id.index < w.bindings.size

/-- An operand that cannot be read is a variable whose slot has no value. -/
theorem Bindings.exists_slot_of_value_eq_error {bindings : Bindings} {operand : Operand}
    {error : EvalError} (h : bindings.value operand = .error error)
    (hr : ∀ id, operand = .var id → id.index < bindings.size) :
    ∃ id name, operand = .var id ∧ bindings.slots[id.index]? = some ⟨name, none⟩ ∧
      error = .uninitializedVariable name := by
  cases operand with
  | literal => cases h
  | var id =>
    have hlt : id.index < bindings.slots.length := hr id rfl
    have hslot : bindings.slots[id.index]? = some bindings.slots[id.index] :=
      List.getElem?_eq_getElem hlt
    have hname : bindings.name id = bindings.slots[id.index].name := by
      simp [name, names, List.getD_eq_getElem?_getD, hslot]
    simp only [value, read?, hslot, Option.bind_some] at h
    split at h
    · cases h
    · rename_i hnone
      obtain rfl := Except.error.inj h
      refine ⟨id, bindings.slots[id.index].name, rfl, ?_, by rw [hname]⟩
      rw [hslot, ← hnone]

namespace Operation

/-- Whether an operation does nothing with the operands it demands. -/
def IsIdle (op : Operation) : Prop :=
  op.role = .openBracket none ∨ ∃ opener, op.role = .closeBracket opener

/-- What an operation does with the operands that it is handed, in the order in which they were pushed.
A function reads them all, from the first, and then runs its body on the values. -/
def effect? (op : Operation) (handed : List Operand) : Option (Effect Float) :=
  match op.role, handed with
  | .binary _ _ action, [left, right] => some (action left right)
  | .prefixOp _ action, [operand] => some (action operand)
  | .postfixOp action, [operand] => some (action operand)
  | .openBracket (some action), [operand] => some (action operand)
  | .function _ body, arguments => some do
    let values ← arguments.mapM Effect.read
    Effect.ofExcept (body values)
  | _, _ => none

variable {op : Operation} {w : Workspace} {handed below : List Operand}

/-- Reading the arguments and running the body is what applying a function does. -/
theorem mapM_read_bind (arguments : List Operand) (body : List Float → Except EvalError Float)
    (bindings : Bindings) :
    (do let values ← arguments.mapM Effect.read; Effect.ofExcept (body values) : Effect Float)
        bindings =
      Effect.ofExcept (arguments.mapM bindings.value >>= body) bindings := by
  simp only [bind, EStateM.bind, Effect.mapM_read]
  cases arguments.mapM bindings.value <;> rfl

/-- An operation that is handed the operands it demands does with them what it does, above the ones
below. -/
theorem apply_of_append (ho : w.operands = handed.reverse ++ below)
    (hd : handed.length = op.demand) :
    match op.effect? handed with
    | none => op.IsIdle ∧ op.apply w = .ok () w
    | some effect => ¬op.IsIdle ∧ op.apply w = Workspace.settle below effect w.bindings := by
  obtain ⟨name, role⟩ := op
  obtain ⟨operands, bindings⟩ := w
  obtain rfl : operands = handed.reverse ++ below := ho
  cases role with
  | binary priority associativity action =>
    obtain ⟨left, right, rfl⟩ := List.length_eq_two.1 hd
    exact ⟨by simp [IsIdle], rfl⟩
  | prefixOp priority action =>
    obtain ⟨operand, rfl⟩ := List.length_eq_one_iff.1 hd
    exact ⟨by simp [IsIdle], rfl⟩
  | postfixOp action =>
    obtain ⟨operand, rfl⟩ := List.length_eq_one_iff.1 hd
    exact ⟨by simp [IsIdle], rfl⟩
  | function arity body =>
    obtain rfl : handed.length = arity := hd
    refine ⟨by simp [IsIdle], ?_⟩
    have hle : handed.length ≤ (handed.reverse ++ below).length := by simp
    have htake : (handed.reverse ++ below).take handed.length = handed.reverse := by simp
    have hdrop : (handed.reverse ++ below).drop handed.length = below := by simp
    simp only [apply, hle, if_true, htake, hdrop, List.reverse_reverse, Workspace.settle,
      mapM_read_bind]
  | openBracket transform =>
    obtain ⟨operand, rfl⟩ := List.length_eq_one_iff.1 hd
    cases transform with
    | none => exact ⟨.inl rfl, rfl⟩
    | some action => exact ⟨by simp [IsIdle], rfl⟩
  | closeBracket opener =>
    obtain rfl : handed = [] := List.eq_nil_of_length_eq_zero hd
    exact ⟨.inr ⟨opener, rfl⟩, rfl⟩

/-- A function that is handed its arguments changes no variable. If all of them have values, its body
says what comes of them; if not, the first one without a value is reported, whatever the body is. -/
theorem apply_function {arity : Nat} {body : List Float → Except EvalError Float} (hw : w.InRange)
    (hr : op.role = .function arity body) (ho : w.operands = handed.reverse ++ below)
    (hd : handed.length = arity) :
    (∃ values, List.Forall₂ (fun operand value => w.bindings.value operand = .ok value) handed values ∧
      op.apply w =
        match body values with
        | .ok value => .ok () ⟨.literal value :: below, w.bindings⟩
        | .error error => .error error ⟨below, w.bindings⟩) ∨
    ∃ before id name after, handed = before ++ .var id :: after ∧
      (∀ operand ∈ before, ∃ value, w.bindings.value operand = .ok value) ∧
      w.bindings.slots[id.index]? = some ⟨name, none⟩ ∧
      op.apply w = .error (.uninitializedVariable name) ⟨below, w.bindings⟩ := by
  have happly : op.apply w =
      Workspace.settle below (.ofExcept (handed.mapM w.bindings.value >>= body)) w.bindings := by
    have hdemand : handed.length = op.demand := by
      rw [hd, demand, hr]
      rfl
    have h := apply_of_append ho hdemand
    simp only [effect?, hr] at h
    rw [h.2]
    simp only [Workspace.settle, mapM_read_bind]
  cases hm : handed.mapM w.bindings.value with
  | ok values =>
    refine .inl ⟨values, forall₂_of_mapM_eq_ok hm, ?_⟩
    rw [happly, hm, ok_bind]
    cases hb : body values <;> simp [Workspace.settle, Effect.ofExcept]
  | error error =>
    obtain ⟨before, operand, after, rfl, hbefore, he⟩ := exists_first_of_mapM_eq_error hm
    obtain ⟨id, name, rfl, hslot, rfl⟩ :=
      Bindings.exists_slot_of_value_eq_error he fun id hid => hw id (by simp [ho, hid])
    refine .inr ⟨before, id, name, after, rfl, hbefore, hslot, ?_⟩
    rw [happly, hm, error_bind]
    rfl

/-- With fewer operands than an operation demands nothing happens but an error. Otherwise the topmost ones
are handed to it, in the order in which they were pushed, and those below stay. Brackets that do nothing
leave the stack alone. From any other operation a number takes the place of what it was handed, unless it
fails, when nothing does. A function reads all its arguments first, reports the first one without a
value, and changes no variable. -/
theorem apply_stackEffect (hw : w.InRange) (op : Operation) :
    (w.operands.length < op.demand →
      op.apply w = .error (.insufficientOperands op.name op.demand w.operands.length) w) ∧
    (op.demand ≤ w.operands.length →
      ∃ handed below, w.operands = handed.reverse ++ below ∧ handed.length = op.demand ∧
        (match op.effect? handed with
          | none => op.IsIdle ∧ op.apply w = .ok () w
          | some effect => ¬op.IsIdle ∧ op.apply w =
            match effect w.bindings with
            | .ok value bindings => .ok () ⟨.literal value :: below, bindings⟩
            | .error error bindings => .error error ⟨below, bindings⟩) ∧
        ∀ arity body, op.role = .function arity body →
          (∃ values,
            List.Forall₂ (fun operand value => w.bindings.value operand = .ok value) handed values ∧
            op.apply w =
              match body values with
              | .ok value => .ok () ⟨.literal value :: below, w.bindings⟩
              | .error error => .error error ⟨below, w.bindings⟩) ∨
          ∃ before id name after, handed = before ++ .var id :: after ∧
            (∀ operand ∈ before, ∃ value, w.bindings.value operand = .ok value) ∧
            w.bindings.slots[id.index]? = some ⟨name, none⟩ ∧
            op.apply w = .error (.uninitializedVariable name) ⟨below, w.bindings⟩) := by
  refine ⟨fun hlt => apply_of_lt_demand hlt, fun hle => ?_⟩
  have ho : w.operands = (w.operands.take op.demand).reverse.reverse ++ w.operands.drop op.demand := by
    rw [List.reverse_reverse, List.take_append_drop]
  have hd : (w.operands.take op.demand).reverse.length = op.demand := by
    rw [List.length_reverse, List.length_take_of_le hle]
  refine ⟨_, _, ho, hd, apply_of_append ho hd, fun arity body hr => ?_⟩
  exact apply_function hw hr ho (by rw [hd, demand, hr]; rfl)

/-- An assignment and a function are applied to a variable without a value and the number 8, above the
number 10: the variable is given the value, and the function reports the variable. -/
theorem apply_stackEffect_sample :
    let w : Workspace := ⟨[.literal 8.0, .var ⟨0⟩, .literal 10.0], ⟨[⟨"x", none⟩]⟩⟩
    let gives : Operation := ⟨"=", .binary 0 .right (Effect.assign "=")⟩
    let most : Operation := .ofFormula "max" fun a b : Float => if a > b then a else b
    w.InRange ∧ 2 ≤ w.operands.length ∧
      gives.apply w = .ok () ⟨[.literal 8.0, .literal 10.0], ⟨[⟨"x", some 8.0⟩]⟩⟩ ∧
      most.apply w = .error (.uninitializedVariable "x") ⟨[.literal 10.0], ⟨[⟨"x", none⟩]⟩⟩ := by
  intro w gives most
  have hw : w.InRange := by
    intro id hid
    obtain rfl : id = ⟨0⟩ := by simpa [w] using hid
    decide
  have hle : 2 ≤ w.operands.length := by decide
  have hhanded : ∀ handed below : List Operand, w.operands = handed.reverse ++ below →
      handed.length = 2 → handed = [.var ⟨0⟩, .literal 8.0] ∧ below = [.literal 10.0] := by
    intro handed below ho hd
    obtain ⟨left, right, rfl⟩ := List.length_eq_two.1 hd
    obtain ⟨rfl, rfl, rfl⟩ : right = .literal 8.0 ∧ left = .var ⟨0⟩ ∧ below = [.literal 10.0] := by
      simpa [w, eq_comm] using ho
    exact ⟨rfl, rfl⟩
  refine ⟨hw, hle, ?_, ?_⟩
  · obtain ⟨handed, below, ho, hd, happly, -⟩ := (apply_stackEffect hw gives).2 hle
    obtain ⟨rfl, rfl⟩ := hhanded handed below ho hd
    exact happly.2
  · obtain ⟨handed, below, ho, hd, happly, -⟩ := (apply_stackEffect hw most).2 hle
    obtain ⟨rfl, rfl⟩ := hhanded handed below ho hd
    exact happly.2

end Operation

end Abacus
