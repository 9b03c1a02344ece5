import Abacus.Proofs.Evaluation.Isolation

/-!
# The bases of what waits

An operation that waits remembers how many operands there were when it was met. An operator that lacks
its right operand takes one from below its own scope, and still no base is ever above the operands that
are there (`Run.IsLayered`): the operands have to be counted together with the last reading
(`Run.Balanced`). So a call or a group that ends counts exactly the operands that have been added since
it began (`Reaches.isLayered`).

* `Rests.pairwise`, `Rests.base_lt_of_binary`: the bases of what waits above a number of operands;
* `Frame.fire_of_isScope`: what comes of a scope is told by the number of operands that it has got.
-/

namespace Abacus

/-- The operations that wait were met one above the other, and above no operands but those that are
there. -/
structure Run.IsLayered (run : Run) : Prop where
  /-- What waits further inside was met above no fewer operands. -/
  pairwise : (run.frames.map Frame.base).Pairwise (· ≥ ·)
  /-- A binary operator was met above its left operand, which is above all that waits outside. -/
  binary : ∀ {frame outer}, frame :: outer <:+ run.frames → frame.operation.kind = .binary →
    1 ≤ frame.base ∧ ∀ other ∈ outer, other.base < frame.base
  /-- Nothing was met above more operands than are there. -/
  base_le : ∀ frame ∈ run.frames, frame.base ≤ run.workspace.operands.length
  /-- An operand that has just been completed is above all that waits. -/
  base_lt : run.previous.completesOperand = true →
    ∀ frame ∈ run.frames, frame.base < run.workspace.operands.length

namespace Rests

variable {frame : Frame} {frames outer : List Frame} {n : Nat}

/-- What waits outside of something rests as well. -/
theorem of_suffix (h : Rests frames n) (hs : outer <:+ frames) : ∃ k, Rests outer k := by
  have hcons : ∀ {frame : Frame} {frames : List Frame} {n : Nat}, Rests (frame :: frames) n →
      (outer <:+ frames → ∃ k, Rests outer k) → outer <:+ frame :: frames → ∃ k, Rests outer k := by
    intro frame frames n hr ih hs
    rcases List.suffix_cons_iff.1 hs with rfl | hs
    · exact ⟨n, hr⟩
    · exact ih hs
  induction h with
  | nil => exact ⟨0, List.suffix_nil.1 hs ▸ .nil⟩
  | prefixOp hk hr ih => exact hcons (.prefixOp hk hr) ih hs
  | binary hk hr ih => exact hcons (.binary hk hr) ih hs
  | function hk hr hn ih => exact hcons (.function hk hr hn) ih hs
  | openBracket hk hr ih => exact hcons (.openBracket hk hr) ih hs

/-- What waits further inside was met above no fewer operands. -/
theorem pairwise (h : Rests frames n) : (frames.map Frame.base).Pairwise (· ≥ ·) := by
  have hcons : ∀ {frame : Frame} {outer : List Frame} {k : Nat}, Rests outer k → k ≤ frame.base →
      (outer.map Frame.base).Pairwise (· ≥ ·) →
      ((frame :: outer).map Frame.base).Pairwise (· ≥ ·) := by
    intro frame outer k hr hle hp
    refine List.pairwise_cons.2 ⟨List.forall_mem_map.2 fun other ho => ?_, hp⟩
    exact Nat.le_trans (hr.base_le other ho) hle
  induction h with
  | nil => exact .nil
  | prefixOp _ hr ih | openBracket _ hr ih => exact hcons hr (Nat.le_refl _) ih
  | binary _ hr ih => exact hcons hr (Nat.le_succ _) ih
  | function _ hr _ ih => exact hcons hr (Nat.le_refl _) ih

/-- A binary operator was met above an operand that is above all that waits outside. -/
theorem base_lt_of_binary (h : Rests (frame :: outer) n) (hk : frame.operation.kind = .binary) :
    1 ≤ frame.base ∧ ∀ other ∈ outer, other.base < frame.base := by
  cases h with
  | binary _ hr =>
    exact ⟨Nat.le_add_left 1 _, fun other ho => Nat.lt_succ_of_le (hr.base_le other ho)⟩
  | prefixOp h | function h | openBracket h => simp [hk] at h

end Rests

/-- A run whose operands are as many as what waits tells is layered. -/
theorem Run.isLayered_of_balanced {run : Run} (h : run.Balanced) : run.IsLayered := by
  obtain ⟨n, hr, hl⟩ := h
  refine ⟨hr.pairwise, fun hs hk => ?_, fun frame hf => ?_, fun hp frame hf => ?_⟩
  · obtain ⟨k, hr⟩ := hr.of_suffix hs
    exact hr.base_lt_of_binary hk
  · have hle := hr.base_le frame hf
    omega
  · have hle := hr.base_le frame hf
    rw [Reading.extra, hp, Bool.toNat_true] at hl
    omega

/-- What comes of a scope when it is applied to what is above its base. -/
theorem Frame.fire_of_isScope {frame : Frame} {w : Workspace} {found : Nat}
    (hs : frame.operation.isScope = true) (hl : w.operands.length = frame.base + found) :
    frame.fire w =
      if found < frame.operation.demand then
        .error (.insufficientOperands frame.operation.name frame.operation.demand found)
      else if frame.operation.demand < found then .error .malformedExpression
      else w.run frame.operation := by
  simp only [fire, hl, Nat.add_sub_cancel_left, hs, true_and]
  rfl

/-- At every moment of an evaluation, what waits was met above no operands but those that are there. A
call or a group that waits first began at an earlier moment, and is applied to the operands that have been
added since then: their number decides whether there are too few of them or too many. -/
theorem Reaches.isLayered {registry : Registry} (hreach : registry.Reachable) {store : Store}
    {tokens : List Token} {m : Moment} (h : Reaches registry store tokens m) :
    m.run.IsLayered ∧
    ∀ scope outer, m.run.frames = scope :: outer → scope.operation.isScope = true →
      ∃ before opened found,
        Reaches registry store tokens before ∧ Moment.Next registry store before opened ∧
        before.run.frames = outer ∧ opened.run.frames = scope :: outer ∧
        Relation.ReflTransGen (Moment.Inside registry store (scope :: outer)) opened m ∧
        scope.base = before.run.workspace.operands.length ∧
        m.run.workspace.operands.length = before.run.workspace.operands.length + found ∧
        scope.fire m.run.workspace =
          if found < scope.operation.demand then
            .error (.insufficientOperands scope.operation.name scope.operation.demand found)
          else if scope.operation.demand < found then .error .malformedExpression
          else m.run.workspace.run scope.operation := by
  have hlayered := Run.isLayered_of_balanced (h.balanced hreach)
  refine ⟨hlayered, fun scope outer hf hs => ?_⟩
  have hwaits : scope :: outer <:+ m.run.frames := hf ▸ List.suffix_rfl
  obtain ⟨before, opened, hbefore, hnext, rfl, hin, hpath⟩ := h.exists_opening hwaits
  have hbase := (hnext.opened hin).2
  have hle := hlayered.base_le scope (hwaits.subset List.mem_cons_self)
  obtain ⟨found, hfound⟩ := Nat.exists_eq_add_of_le hle
  exact ⟨before, opened, found, hbefore, hnext, rfl, hin, hpath, hbase, hbase ▸ hfound,
    Frame.fire_of_isScope hs hfound⟩

open Library in
/-- In `1 + max(5)`, before the call ends, the call waits above the number in front of it and has got one
argument, where it demands two. -/
theorem Reaches.isLayered_sample : ∃ m : Moment,
    Reaches registry ∅ [⟨.literal, "1"⟩, ⟨.operator, "+"⟩, ⟨.function, "max"⟩, ⟨.bracket, "("⟩,
      ⟨.literal, "5"⟩, ⟨.bracket, ")"⟩] m ∧ m.rest = [⟨.bracket, ")"⟩] ∧
    m.run.frames.map Frame.base = [1, 1] ∧ m.run.workspace.operands.length = 2 ∧ m.run.IsLayered ∧
    ∀ scope ∈ m.run.frames.head?,
      scope.fire m.run.workspace = .error (.insufficientOperands "max" 2 1) := by
  have hone : Number.read? "1".toList = some 1.0 := by decide +kernel
  have hfive : Number.read? "5".toList = some 5.0 := by decide +kernel
  have hadd := (find?_registry "+" .binary).trans rfl
  have hmax := (find?_registry "max" .function).trans rfl
  have h₁ : Reaches registry ∅ [⟨.literal, "1"⟩, ⟨.operator, "+"⟩, ⟨.function, "max"⟩,
      ⟨.bracket, "("⟩, ⟨.literal, "5"⟩, ⟨.bracket, ")"⟩] ⟨_, 1, _⟩ :=
    Moment.reaches_of_step (Run.step_literal rfl hone)
  have h₂ := h₁.trans (Moment.reaches_of_step (Run.step_binary rfl hadd))
  have h₃ := h₂.trans (Moment.reaches_of_step (Run.step_function rfl rfl hmax))
  have h₄ := h₃.trans (Moment.reaches_of_step (Run.step_callOpen rfl))
  have h₅ := h₄.trans (Moment.reaches_of_step (Run.step_literal rfl hfive))
  obtain ⟨hlayered, hscope⟩ := Reaches.isLayered reachable_registry h₅
  refine ⟨_, h₅, rfl, rfl, rfl, hlayered, ?_⟩
  rintro scope ⟨⟩
  obtain ⟨before, opened, found, -, -, -, -, -, hbase, hlength, hfire⟩ := hscope _ _ rfl rfl
  have hfound : found = 1 := by
    rw [← hbase] at hlength
    exact (Nat.add_left_cancel hlength).symm
  subst hfound
  exact hfire

end Abacus
