import Abacus.Proofs.Operation.Local
import Abacus.Proofs.Variables.Access

/-!
# Procedures

What is done with variables in order to come to an outcome, as data: one access after the other, where
what comes next depends on what came of those before. All variables may be listed in between, which
takes no slot.

A procedure is an effect (`Procedure.run`), and it tells the accesses that it makes
(`Procedure.log`). One procedure after the other is the one effect after the other, and its accesses
are those of the one and then those of the other (`Procedure.run_bind`,
`Procedure.log_bind_of_run_eq_ok`).
-/

namespace Abacus

/-- What is done with variables until there is an outcome. -/
inductive Procedure (α : Type) where
  /-- There is an outcome. -/
  | done (outcome : Except EvalError α)
  /-- All variables and their values are listed. -/
  | list (next : List (String × Option Float) → Procedure α)
  /-- A name is resolved to a slot. -/
  | resolve (name : String) (store : Store) (next : VarId → Procedure α)
  /-- An operand is read. -/
  | read (operand : Operand) (next : Except EvalError Float → Procedure α)
  /-- The name of a slot is asked for. -/
  | nameOf (id : VarId) (next : String → Procedure α)
  /-- A slot is given a value. -/
  | write (id : VarId) (value : Float) (next : Procedure α)

namespace Procedure

variable {α β : Type}

/-- What a procedure does to the variables, and its outcome. -/
def run : Procedure α → Effect α
  | done outcome => .ofExcept outcome
  | list next => fun bindings => (next bindings.toList).run bindings
  | resolve name store next => fun bindings =>
    (next (bindings.resolve name store).1).run (bindings.resolve name store).2
  | read operand next => fun bindings => (next (bindings.value operand)).run bindings
  | nameOf id next => fun bindings => (next (bindings.name id)).run bindings
  | write id value next => fun bindings => next.run (bindings.set id value)

/-- The accesses that a procedure makes. -/
def log : Procedure α → Bindings → List Access
  | done _, _ => []
  | list next, bindings => (next bindings.toList).log bindings
  | resolve name store next, bindings =>
    .resolve name store (bindings.resolve name store).1 ::
      (next (bindings.resolve name store).1).log (bindings.resolve name store).2
  | read operand next, bindings =>
    .read operand (bindings.value operand) :: (next (bindings.value operand)).log bindings
  | nameOf id next, bindings =>
    .nameOf id (bindings.name id) :: (next (bindings.name id)).log bindings
  | write id value next, bindings => .write id value :: next.log (bindings.set id value)

/-- One procedure after the other. If the first fails, the second is not begun. -/
def bind : Procedure α → (α → Procedure β) → Procedure β
  | done (.ok a), f => f a
  | done (.error error), _ => done (.error error)
  | list next, f => list fun listing => (next listing).bind f
  | resolve name store next, f => resolve name store fun id => (next id).bind f
  | read operand next, f => read operand fun outcome => (next outcome).bind f
  | nameOf id next, f => nameOf id fun name => (next name).bind f
  | write id value next, f => write id value (next.bind f)

variable {procedure : Procedure α} {f : α → Procedure β} {before after : Bindings}

theorem run_bind : (procedure.bind f).run = procedure.run >>= fun a => (f a).run := by
  induction procedure with
  | done outcome => cases outcome <;> rfl
  | list _ ih | resolve _ _ _ ih | read _ _ ih | nameOf _ _ ih =>
    funext bindings
    exact congrFun (ih _) _
  | write id value _ ih =>
    funext bindings
    exact congrFun ih (bindings.set id value)

theorem log_bind_of_run_eq_ok {a : α} (h : procedure.run before = .ok a after) :
    (procedure.bind f).log before = procedure.log before ++ (f a).log after := by
  induction procedure generalizing before with
  | done outcome =>
    cases outcome with
    | ok => cases h; rfl
    | error => cases h
  | list _ ih => exact ih _ h
  | resolve _ _ _ ih | read _ _ ih | nameOf _ _ ih => exact congrArg _ (ih _ h)
  | write _ _ _ ih => exact congrArg _ (ih h)

theorem log_bind_of_run_eq_error {error : EvalError} (h : procedure.run before = .error error after) :
    (procedure.bind f).log before = procedure.log before := by
  induction procedure generalizing before with
  | done outcome =>
    cases outcome with
    | ok => cases h
    | error => rfl
  | list _ ih => exact ih _ h
  | resolve _ _ _ ih | read _ _ ih | nameOf _ _ ih => exact congrArg _ (ih _ h)
  | write _ _ _ ih => exact congrArg _ (ih h)

end Procedure

end Abacus
