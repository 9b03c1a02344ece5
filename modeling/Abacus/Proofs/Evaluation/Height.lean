import Abacus.Proofs.Evaluation.Moment
import Abacus.Proofs.Operation.Local
import Abacus.Proofs.Registry.Reachable

/-!
# The height of the operands

How many operands there are follows from what waits (`Rests`): a prefix operator waits above the
operands that were there before it, a binary one above its left operand as well, and a call has all
its finished arguments above its base. One more is there when an operand has just been completed.

* `Rests.base_le`: nothing that waits was met above the operands that are there;
* `Reaches.balanced`: the operands of every moment are as many as what waits tells.
-/

namespace Abacus

/-! ## Demands -/

namespace Operation

variable {op : Operation}

theorem demand_of_kind_binary (h : op.kind = .binary) : op.demand = 2 := by
  obtain ⟨name, role⟩ := op
  cases role <;> first | rfl | cases h

theorem demand_of_kind_prefixOp (h : op.kind = .prefixOp) : op.demand = 1 := by
  obtain ⟨name, role⟩ := op
  cases role <;> first | rfl | cases h

theorem demand_of_kind_postfixOp (h : op.kind = .postfixOp) : op.demand = 1 := by
  obtain ⟨name, role⟩ := op
  cases role <;> first | rfl | cases h

theorem demand_of_kind_openBracket (h : op.kind = .openBracket) : op.demand = 1 := by
  obtain ⟨name, role⟩ := op
  cases role <;> first | rfl | cases h

/-- What a token lets go is no scope. -/
theorem not_isScope_of_releases {registry : Registry} {previous : Reading} {token? : Option Token}
    (h : releases registry previous token? op = true) : op.isScope = false := by
  rw [Bool.eq_false_iff]
  intro hs
  cases token? with
  | none => simp [releases, hs] at h
  | some token =>
    have ht := Run.not_startsOperand_of_releases h
    simp only [releases, ht, if_false] at h
    cases hk : token.kind <;> simp [hk, hs, firesBefore_of_isScope hs, Option.any_eq_true] at h

end Operation

/-- What applying an operation does to the number of operands. -/
theorem Workspace.length_of_run {w w' : Workspace} {op : Operation} (hk : op.kind ≠ .closeBracket)
    (h : w.run op = .ok w') :
    op.demand ≤ w.operands.length ∧
      w'.operands.length + op.demand = w.operands.length + 1 := by
  obtain ⟨handed, below, result, ha⟩ := run_eq_ok hk h
  rw [ha.before, ha.after, ← ha.demand, List.length_append, List.length_cons]
  omega

namespace Frame

variable {frame : Frame} {w w' : Workspace}

/-- What applying a pending operation does to the number of operands. -/
theorem length_of_fire (hk : frame.operation.kind ≠ .closeBracket) (h : frame.fire w = .ok w') :
    w'.operands.length + frame.operation.demand = w.operands.length + 1 :=
  (Workspace.length_of_run hk (fire_eq_ok h).1).2

theorem length_of_fire_prefixOp (hk : frame.operation.kind = .prefixOp)
    (h : frame.fire w = .ok w') : w'.operands.length = w.operands.length := by
  have hlen := length_of_fire (by simp [hk]) h
  rw [Operation.demand_of_kind_prefixOp hk] at hlen
  omega

theorem length_of_fire_binary (hk : frame.operation.kind = .binary) (h : frame.fire w = .ok w') :
    w'.operands.length + 1 = w.operands.length := by
  have hlen := length_of_fire (by simp [hk]) h
  rw [Operation.demand_of_kind_binary hk] at hlen
  omega

/-- A scope that closes leaves one operand above its base. -/
theorem length_of_fire_of_isScope (hk : frame.operation.kind ≠ .closeBracket)
    (hs : frame.operation.isScope = true) (hb : frame.base ≤ w.operands.length)
    (h : frame.fire w = .ok w') : w'.operands.length = frame.base + 1 := by
  have hlen := length_of_fire hk h
  have hfound := (fire_eq_ok h).2 hs
  omega

end Frame

/-! ## What waits above how many operands -/

/-- The operations that wait, the innermost first, wait above a number of operands: `n` of them
belong to what waits, and no more. -/
inductive Rests : List Frame → Nat → Prop where
  | nil : Rests [] 0
  | prefixOp {op : Operation} {frames : List Frame} {n : Nat} (hk : op.kind = .prefixOp)
    (h : Rests frames n) : Rests (⟨op, n⟩ :: frames) n
  | binary {op : Operation} {frames : List Frame} {n : Nat} (hk : op.kind = .binary)
    (h : Rests frames n) : Rests (⟨op, n + 1⟩ :: frames) (n + 1)
  | function {op : Operation} {frames : List Frame} {base n : Nat} (hk : op.kind = .function)
    (h : Rests frames base) (hn : base ≤ n) : Rests (⟨op, base⟩ :: frames) n
  | openBracket {op : Operation} {frames : List Frame} {n : Nat} (hk : op.kind = .openBracket)
    (h : Rests frames n) : Rests (⟨op, n⟩ :: frames) n

/-- Nothing that waits was met above the operands that are there. -/
theorem Rests.base_le {frames : List Frame} {n : Nat} (h : Rests frames n) :
    ∀ frame ∈ frames, frame.base ≤ n := by
  induction h with
  | nil => simp
  | prefixOp _ _ ih | openBracket _ _ ih => exact List.forall_mem_cons.2 ⟨Nat.le_refl _, ih⟩
  | binary _ _ ih =>
    exact List.forall_mem_cons.2 ⟨Nat.le_refl _, fun frame hf => Nat.le_succ_of_le (ih frame hf)⟩
  | function _ _ hn ih =>
    exact List.forall_mem_cons.2 ⟨hn, fun frame hf => Nat.le_trans (ih frame hf) hn⟩

/-- The number of operands that a reading adds to those that belong to what waits. -/
def Reading.extra (previous : Reading) : Nat :=
  previous.completesOperand.toNat

/-- The operands of a run are as many as what waits tells, and one more after an operand. -/
def Run.Balanced (run : Run) : Prop :=
  ∃ n, Rests run.frames n ∧ run.workspace.operands.length = n + run.previous.extra

namespace Run.Balanced

variable {frame : Frame} {frames : List Frame} {w w' : Workspace} {previous : Reading} {run : Run}

theorem start : Run.start.Balanced :=
  ⟨0, .nil, rfl⟩

/-- When a pending operator goes, its operands have made room for one. -/
theorem fire (h : Balanced ⟨frame :: frames, w, previous⟩) (hs : frame.operation.isScope = false)
    (hf : frame.fire w = .ok w') : Balanced ⟨frames, w', previous⟩ := by
  obtain ⟨n, hr, hl⟩ := h
  replace hl : w.operands.length = n + previous.extra := hl
  cases hr with
  | prefixOp hk hr =>
    have hlen := Frame.length_of_fire_prefixOp hk hf
    exact ⟨n, hr, hlen.trans hl⟩
  | @binary op _ n hk hr =>
    have hlen := Frame.length_of_fire_binary hk hf
    refine ⟨n, hr, ?_⟩
    show w'.operands.length = n + previous.extra
    omega
  | function hk | openBracket hk => simp [Operation.isScope, hk] at hs

/-- When a scope closes, its value is on top of the operands that were there before it. -/
theorem close (h : Balanced ⟨frame :: frames, w, previous⟩) (hs : frame.operation.isScope = true)
    (hf : frame.fire w = .ok w') :
    Rests frames frame.base ∧ w'.operands.length = frame.base + 1 := by
  obtain ⟨n, hr, hl⟩ := h
  replace hl : w.operands.length = n + previous.extra := hl
  have hle := hr.base_le frame List.mem_cons_self
  have hbase : frame.base ≤ w.operands.length := by omega
  cases hr with
  | function hk hr =>
    exact ⟨hr, Frame.length_of_fire_of_isScope (by simp [hk]) hs hbase hf⟩
  | openBracket hk hr =>
    exact ⟨hr, Frame.length_of_fire_of_isScope (by simp [hk]) hs hbase hf⟩
  | prefixOp hk | binary hk => simp [Operation.isScope, hk] at hs

/-- Adding an operand where there is none. -/
theorem push {bindings : Bindings} {operand : Operand} {reading : Reading} (h : run.Balanced)
    (hp : run.previous.completesOperand = false) (hr : reading.completesOperand = true) :
    Balanced ⟨run.frames, ⟨operand :: run.workspace.operands, bindings⟩, reading⟩ := by
  obtain ⟨n, hrests, hl⟩ := h
  refine ⟨n, hrests, ?_⟩
  rw [Reading.extra, hp] at hl
  rw [Reading.extra, hr, List.length_cons, hl]
  rfl

/-- Reading something that is no operand and needs none. -/
theorem pushFrame {op : Operation} {reading : Reading} (h : run.Balanced)
    (hp : run.previous.completesOperand = false) (hr : reading.completesOperand = false)
    (hrests : ∀ n, Rests run.frames n → Rests (⟨op, n⟩ :: run.frames) n) :
    (run.pushFrame op reading).Balanced := by
  obtain ⟨n, h, hl⟩ := h
  rw [Reading.extra, hp] at hl
  refine ⟨n, ?_, ?_⟩
  · show Rests (⟨op, run.workspace.operands.length⟩ :: run.frames) n
    rw [hl]
    exact hrests n h
  · show run.workspace.operands.length = n + reading.extra
    rw [hl, Reading.extra, hr]

end Run.Balanced

/-! ## Every moment -/

section Moments

variable {registry : Registry} {store : Store}

/-- Reading a token keeps the balance. -/
theorem Run.Reads.balanced (hreach : registry.Reachable) {run run' : Run} {token : Token}
    {next : Option Token} (h : run.Reads registry store next token run') (hb : run.Balanced) :
    run'.Balanced := by
  cases h with
  | @separator text frame frames hf hk =>
    -- A finished argument now belongs to the call.
    obtain ⟨n, hr, hl⟩ := hb
    refine ⟨n + run.previous.extra, ?_, hl⟩
    show Rests run.frames (n + run.previous.extra)
    rw [hf] at hr ⊢
    cases hr with
    | function hk hr hn => exact .function hk hr (by omega)
    | prefixOp h | binary h | openBracket h => simp [hk] at h
  | literal hp => exact hb.push hp rfl
  | var hp => exact hb.push hp rfl
  | function hp _ _ ho =>
    have hk := (hreach.find?_eq_some ho).2.1
    exact hb.pushFrame hp rfl fun n h => .function hk h (Nat.le_refl n)
  | openBracket hp _ ho hk => exact hb.pushFrame hp rfl fun n h => .openBracket hk h
  | prefixOp hp ho =>
    have hk := (hreach.find?_eq_some ho).2.1
    exact hb.pushFrame (Reading.not_completesOperand_of_expectsOperand hp) rfl fun n h =>
      .prefixOp hk h
  | binary hp ho =>
    obtain ⟨n, hr, hl⟩ := hb
    rw [Reading.extra, hp] at hl
    refine ⟨n + 1, ?_, hl⟩
    show Rests (⟨_, run.workspace.operands.length⟩ :: run.frames) (n + 1)
    rw [hl]
    exact .binary (hreach.find?_eq_some ho).2.1 hr
  | callOpen hp =>
    obtain ⟨n, hr, hl⟩ := hb
    rw [hp] at hl
    exact ⟨n, hr, hl⟩
  | callClose _ hf hk _ hw =>
    obtain ⟨frames, w, previous⟩ := run
    obtain rfl : frames = _ := hf
    obtain ⟨hr, hl⟩ := hb.close (by simp [Operation.isScope, hk]) hw
    exact ⟨_, hr, hl⟩
  | closeBracket _ hf hk _ _ hw =>
    obtain ⟨frames, w, previous⟩ := run
    obtain rfl : frames = _ := hf
    obtain ⟨hr, hl⟩ := hb.close (by simp [Operation.isScope, hk]) hw
    exact ⟨_, hr, hl⟩
  | @postfixOp name op w hp _ ho hw =>
    obtain ⟨n, hr, hl⟩ := hb
    have hk := (hreach.find?_eq_some ho).2.1
    have hlen := Workspace.length_of_run (by simp [hk]) hw
    rw [Operation.demand_of_kind_postfixOp hk] at hlen
    rw [Reading.extra, hp] at hl
    refine ⟨n, hr, ?_⟩
    show w.operands.length = n + 1
    have : true.toNat = 1 := rfl
    omega

theorem Moment.Next.balanced (hreach : registry.Reachable) {m m' : Moment}
    (h : Next registry store m m') (hb : m.run.Balanced) : m'.run.Balanced := by
  cases h with
  | fire hr hf => exact hb.fire (Operation.not_isScope_of_releases hr) hf
  | read hs hr => exact (Run.step_eq_ok hs hr).balanced hreach hb

/-- The operands of every moment are as many as what waits tells. -/
theorem Reaches.balanced (hreach : registry.Reachable) {tokens : List Token} {m : Moment}
    (h : Reaches registry store tokens m) : m.run.Balanced := by
  induction h with
  | refl => exact .start
  | tail _ hn ih => exact hn.balanced hreach ih

end Moments

end Abacus
