import Abacus.Operation.Apply

/-!
# Pending operations

An operation that waits for its operands is kept in a frame, together with the number of operands
that were there before it. Calls and opening brackets are scopes: when one of them is applied,
exactly the operands it demands must have been added since.

* `fire_of_isScope_of_eq`: a scope with the operands it demands is applied;
* `fireWhile_nil`, `fireWhile_cons`: pending operations are applied from the innermost outwards.
-/

namespace Abacus

/-- Whether an operation encloses the operands that follow it. -/
def Operation.isScope (op : Operation) : Bool :=
  op.kind = .function ∨ op.kind = .openBracket

/-- Whether a pending operation has to be applied before an incoming binary operator is read: it
binds tighter, or equally tight and groups to the left. -/
def Operation.firesBefore (pending incoming : Operation) : Bool :=
  match incoming.priority? with
  | none => false
  | some priority =>
    match pending.role with
    | .prefixOp own _ => priority < own
    | .binary own .right _ => priority < own
    | .binary own .left _ => priority ≤ own
    | _ => false

/-- An operation that waits for its operands. -/
structure Frame where
  /-- The operation. -/
  operation : Operation
  /-- The number of operands when it was met. -/
  base : Nat

/-- Applies an operation, without regard to what failing leaves behind. -/
def Workspace.run (w : Workspace) (op : Operation) : Except EvalError Workspace :=
  match op.apply w with
  | .ok _ w => .ok w
  | .error error _ => .error error

/-- Applies a pending operation. A scope must have got the operands it demands, no fewer and no
more. -/
def Frame.fire (frame : Frame) (w : Workspace) : Except EvalError Workspace :=
  let found := w.operands.length - frame.base
  if frame.operation.isScope ∧ found < frame.operation.demand then
    .error (frame.operation.shortage found)
  else if frame.operation.isScope ∧ frame.operation.demand < found then
    .error .malformedExpression
  else w.run frame.operation

/-- Applies pending operations from the innermost outwards, as long as they are ready. -/
def fireWhile (ready : Operation → Bool) :
    List Frame → Workspace → Except EvalError (List Frame × Workspace)
  | [], w => .ok ([], w)
  | frame :: frames, w =>
    if ready frame.operation then
      match frame.fire w with
      | .ok w => fireWhile ready frames w
      | .error error => .error error
    else .ok (frame :: frames, w)

variable {frame : Frame} {frames : List Frame} {w : Workspace} {ready : Operation → Bool}

theorem Frame.fire_of_not_isScope (h : frame.operation.isScope = false) :
    frame.fire w = w.run frame.operation := by
  simp [fire, h]

theorem Frame.fire_of_isScope_of_eq
    (h : w.operands.length - frame.base = frame.operation.demand) :
    frame.fire w = w.run frame.operation := by
  simp [fire, h]

@[simp] theorem fireWhile_nil : fireWhile ready [] w = .ok ([], w) := rfl

theorem fireWhile_cons :
    fireWhile ready (frame :: frames) w =
      if ready frame.operation then frame.fire w >>= fireWhile ready frames
      else .ok (frame :: frames, w) := by
  simp only [fireWhile, bind, Except.bind]
  split
  · cases frame.fire w <;> rfl
  · rfl

/-- What stays pending is not ready, and it is an outer part of what was pending. -/
theorem fireWhile_eq_ok {rest : List Frame} {w' : Workspace}
    (h : fireWhile ready frames w = .ok (rest, w')) :
    rest <:+ frames ∧ ∀ frame ∈ rest.head?, ready frame.operation = false := by
  induction frames generalizing w with
  | nil =>
    obtain ⟨rfl, rfl⟩ := Prod.mk.inj (Except.ok.inj h)
    simp
  | cons frame frames ih =>
    rw [fireWhile] at h
    split at h
    · split at h
      · obtain ⟨hs, hr⟩ := ih h
        exact ⟨hs.trans (List.suffix_cons frame frames), hr⟩
      · cases h
    · rename_i hr
      obtain ⟨rfl, rfl⟩ := Prod.mk.inj (Except.ok.inj h)
      simpa using hr

end Abacus
