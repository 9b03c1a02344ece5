import Abacus.Proofs.Evaluation.Height

/-!
# Executions

The operations that a step of an evaluation applies, how many operands each of them takes, and what
encloses it (`Moment.Executes`). A step changes the operands and the variables in one of four ways
(`Moment.Changes`, `Moment.Next.changes`): not at all, by a number, by a variable, or by applying an
operation.

* `Moment.Next.runs`: a step leaves the variables alone, meets the name of one, or runs an operation;
* `Frame.base_add_taken_le`: a scope that closes takes nothing from below its base;
* `Moment.Changes.suffix`: what an execution does not reach stays where it is.
-/

namespace Abacus

/-- The number of operands that an operation takes: none when there are too few. -/
def Workspace.taken (w : Workspace) (op : Operation) : Nat :=
  if op.demand ≤ w.operands.length then op.demand else 0

/-- The number of operands that a pending operation takes: a scope that has not got what it demands
is refused and takes none. -/
def Frame.taken (frame : Frame) (w : Workspace) : Nat :=
  if frame.operation.isScope ∧ w.operands.length - frame.base ≠ frame.operation.demand then 0
  else w.taken frame.operation

/-- The next step applies an operation that stands inside `enclosing` and takes a number of
operands. The operation may be a pending one that has to go, a scope that meets a closing bracket, or
a postfix operator. -/
inductive Moment.Executes (registry : Registry) : Moment → Operation → List Frame → Nat → Prop where
  | pending {frame : Frame} {frames : List Frame} {w : Workspace} {previous : Reading} {index : Nat}
    {rest : List Token} (hr : releases registry previous rest.head? frame.operation = true) :
    Executes registry ⟨⟨frame :: frames, w, previous⟩, index, rest⟩ frame.operation frames
      (frame.taken w)
  | close {frame : Frame} {frames : List Frame} {w : Workspace} {previous : Reading} {index : Nat}
    {token : Token} {rest : List Token} (hk : token.kind = .bracket)
    (ht : token.closes registry previous = true) (hs : frame.operation.isScope = true) :
    Executes registry ⟨⟨frame :: frames, w, previous⟩, index, token :: rest⟩ frame.operation frames
      (frame.taken w)
  | postfixOp {run : Run} {index : Nat} {name : String} {rest : List Token} {op : Operation}
    (hp : run.previous.completesOperand = true) (hb : registry.find? name .binary = none)
    (ho : registry.find? name .postfixOp = some op) :
    Executes registry ⟨run, index, ⟨.operator, name⟩ :: rest⟩ op run.frames (run.workspace.taken op)

/-- What a step does with the operands and the variables. -/
inductive Moment.Changes (registry : Registry) (store : Store) (m m' : Moment) : Prop where
  | same (hw : m'.run.workspace = m.run.workspace)
  | literal {value : Float} (hw : m'.run.workspace = m.run.workspace.push (.literal value))
  | var {name : String} (hr : m.rest = ⟨.var, name⟩ :: m'.rest)
    (hw : m'.run.workspace = (m.run.readVariable store name).workspace)
  | applied {op : Operation} {handed below : List Operand} {result : Operand}
    (ha : Workspace.Applied op m.run.workspace m'.run.workspace handed below result)
    (he : m.Executes registry op m'.run.frames handed.length)
    (ho : (∃ frame ∈ m.run.frames, frame.operation = op) ∨
      ∃ name kind, registry.find? name kind = some op)

section Taken

variable {frame : Frame} {w w' : Workspace}

theorem Workspace.Applied.length_handed {op : Operation} {handed below : List Operand}
    {result : Operand} (h : Applied op w w' handed below result) :
    handed.length = w.taken op := by
  rw [taken, if_pos, h.demand]
  rw [h.before, ← h.demand, List.length_append]
  omega

/-- Operands that an execution does not reach are still there below its result. -/
theorem Workspace.Applied.suffix {op : Operation} {handed below kept : List Operand} {result : Operand}
    (h : Applied op w w' handed below result) (hk : kept <:+ w.operands)
    (hl : kept.length + handed.length ≤ w.operands.length) : kept <:+ below := by
  rw [h.before] at hk hl
  rw [List.length_append] at hl
  exact List.suffix_of_suffix_length_le hk (List.suffix_append handed below) (by omega)

/-- A pending operation that is applied has taken what it takes. -/
theorem Frame.exists_applied (hk : frame.operation.kind ≠ .closeBracket)
    (h : frame.fire w = .ok w') :
    ∃ handed below result, Workspace.Applied frame.operation w w' handed below result ∧
      handed.length = frame.taken w := by
  obtain ⟨hrun, hd⟩ := fire_eq_ok h
  obtain ⟨handed, below, result, ha⟩ := Workspace.run_eq_ok hk hrun
  refine ⟨handed, below, result, ha, ?_⟩
  rw [taken, if_neg, ha.length_handed]
  rintro ⟨hs, hne⟩
  exact hne (hd hs)

/-- An operation that runs takes what it demands. -/
theorem Workspace.taken_of_run {op : Operation} (h : w.run op = .ok w') : w.taken op = op.demand := by
  refine if_pos (Nat.not_lt.1 fun hlt => ?_)
  have happly := apply_of_run h
  rw [Operation.apply_of_lt_demand hlt] at happly
  cases happly

theorem Frame.taken_of_fire (h : frame.fire w = .ok w') :
    frame.taken w = frame.operation.demand := by
  obtain ⟨hrun, hd⟩ := fire_eq_ok h
  rw [taken, if_neg fun hne => hne.2 (hd hne.1), Workspace.taken_of_run hrun]

/-- A scope that closes takes nothing from below its base. -/
theorem Frame.base_add_taken_le (hs : frame.operation.isScope = true)
    (hb : frame.base ≤ w.operands.length) : frame.base + frame.taken w ≤ w.operands.length := by
  unfold taken Workspace.taken
  by_cases hd : w.operands.length - frame.base = frame.operation.demand
  · simp only [hs, hd, ne_eq, not_true, and_false, if_false]
    split <;> omega
  · simp only [hs, hd, ne_eq, not_false_eq_true, and_self, if_true]
    omega

end Taken

namespace Rests

variable {frame : Frame} {frames : List Frame} {n : Nat}

/-- What waits first is one of four kinds of operation. -/
theorem kind_ne_closeBracket (h : Rests (frame :: frames) n) :
    frame.operation.kind ≠ .closeBracket := by
  cases h <;> simp [*]

/-- What waits outside a scope was met below its base. -/
theorem of_isScope (h : Rests (frame :: frames) n) (hs : frame.operation.isScope = true) :
    Rests frames frame.base := by
  cases h with
  | function _ hr | openBracket _ hr => exact hr
  | prefixOp hk | binary hk => simp [Operation.isScope, hk] at hs

end Rests

namespace Moment

variable {registry : Registry} {store : Store} {m m' : Moment}

/-- A step changes the operands and the variables in one of four ways. -/
theorem Next.changes (hreach : registry.Reachable) (hb : m.run.Balanced)
    (h : Next registry store m m') : Changes registry store m m' := by
  obtain ⟨n, hr, _⟩ := hb
  cases h with
  | @fire frame frames w w' previous index rest hrel hf =>
    obtain ⟨handed, below, result, ha, hl⟩ := Frame.exists_applied hr.kind_ne_closeBracket hf
    exact .applied ha (hl ▸ .pending hrel) (.inl ⟨frame, List.mem_cons_self, rfl⟩)
  | @read run run' index token rest hs hstep =>
    cases Run.step_eq_ok hs hstep with
    | separator | function | callOpen | openBracket | prefixOp | binary => exact .same rfl
    | literal => exact .literal rfl
    | var => exact .var rfl rfl
    | callClose hc hf hk _ hw | closeBracket hc hf hk _ _ hw =>
      obtain ⟨frames, w, previous⟩ := run
      obtain rfl : frames = _ := hf
      obtain ⟨handed, below, result, ha, hl⟩ := Frame.exists_applied hr.kind_ne_closeBracket hw
      exact .applied ha (hl ▸ .close rfl hc (by simp [Operation.isScope, hk]))
        (.inl ⟨_, List.mem_cons_self, rfl⟩)
    | postfixOp hp hn ho hw =>
      have hk := (hreach.find?_eq_some ho).2.1
      obtain ⟨handed, below, result, ha⟩ := Workspace.run_eq_ok (by simp [hk]) hw
      exact .applied ha (ha.length_handed ▸ .postfixOp hp hn ho) (.inr ⟨_, _, ho⟩)

/-- A step leaves the variables alone, meets the name of one, or runs an operation that waits or that the
registry has. -/
theorem Next.runs (h : Next registry store m m') :
    m'.run.workspace.bindings = m.run.workspace.bindings ∨
      (∃ name, ⟨.var, name⟩ ∈ m.rest ∧
        m'.run.workspace.bindings = (m.run.workspace.bindings.resolve name store).2) ∨
      ∃ op enclosing, m.Executes registry op enclosing op.demand ∧
        m.run.workspace.run op = .ok m'.run.workspace ∧
        ((∃ frame ∈ m.run.frames, frame.operation = op) ∨
          ∃ name kind, registry.find? name kind = some op) := by
  cases h with
  | @fire frame frames w w' previous index rest hr hf =>
    have hexecutes : Executes registry ⟨⟨frame :: frames, w, previous⟩, index, rest⟩ frame.operation
        frames (frame.taken w) := .pending hr
    rw [Frame.taken_of_fire hf] at hexecutes
    exact .inr (.inr ⟨_, _, hexecutes, (Frame.fire_eq_ok hf).1, .inl ⟨_, List.mem_cons_self, rfl⟩⟩)
  | @read run run' index token rest hs hstep =>
    cases Run.step_eq_ok hs hstep with
    | separator | function | callOpen | openBracket | prefixOp | binary | literal => exact .inl rfl
    | @var name hp => exact .inr (.inl ⟨name, List.mem_cons_self, rfl⟩)
    | @callClose _ frame frames _ hc hf hk _ hw | @closeBracket _ frame frames _ _ hc hf hk _ _ hw =>
      obtain ⟨_, w, previous⟩ := run
      obtain rfl : _ = frame :: frames := hf
      have hexecutes : Executes registry ⟨⟨frame :: frames, w, previous⟩, index, _ :: rest⟩
          frame.operation frames (frame.taken w) := .close rfl hc (by simp [Operation.isScope, hk])
      rw [Frame.taken_of_fire hw] at hexecutes
      exact .inr (.inr ⟨_, _, hexecutes, (Frame.fire_eq_ok hw).1, .inl ⟨_, List.mem_cons_self, rfl⟩⟩)
    | postfixOp hp hn ho hw =>
      have hexecutes : Executes registry ⟨run, index, _ :: rest⟩ _ run.frames _ := .postfixOp hp hn ho
      rw [Workspace.taken_of_run hw] at hexecutes
      exact .inr (.inr ⟨_, _, hexecutes, hw, .inr ⟨_, _, ho⟩⟩)

/-- Operands that no execution of a step reaches are still there after it. -/
theorem Changes.suffix {kept : List Operand} (h : Changes registry store m m')
    (hk : kept <:+ m.run.workspace.operands)
    (he : ∀ op n, m.Executes registry op m'.run.frames n →
      kept.length + n ≤ m.run.workspace.operands.length) :
    kept <:+ m'.run.workspace.operands := by
  cases h with
  | same hw => rwa [hw]
  | literal hw | var _ hw =>
    rw [hw]
    exact hk.trans (List.suffix_cons _ _)
  | applied ha hex _ =>
    rw [ha.after]
    exact (ha.suffix hk (he _ _ hex)).trans (List.suffix_cons _ _)

end Moment

end Abacus
