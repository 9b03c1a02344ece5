import Mathlib.Control.Monad.Basic
import Abacus.Proofs.Evaluation.Agreement
import Abacus.Proofs.Operation.Nominal

/-!
# Assigning the value of an expression

Tokens that have a value are read behind `x=` as they are read alone (`Run.Behind`). The variable waits
at the bottom of the operands and the assignment outside of all that the tokens make wait: it goes before
no binary operator, and where a separator or a closing bracket would let it go, the tokens alone would
fail. The name of the variable has been met before the tokens, so that slots differ, but no operation
sees a difference (`Workspace.WithTarget.run`).

At the end the assignment gives the variable the value of the tokens (`evaluateTokens_assign`).

* `Frame.fire_raise`, `Run.Reads.behind`: what waits goes, and a token is read, as it is without `x=`;
* `Moment.Next.behind`, `Reaches.exists_behind`: so it is with one step, and with all of them.
-/

namespace Abacus

/-! ## The variable below the operands -/

/-- Whether a workspace is another one with the variable of a name below its operands. The operands above
are the same, and the same is seen of all variables. -/
structure Workspace.WithTarget (store : Store) (name : String) (w w' : Workspace) : Prop where
  operands : ∃ above target, w'.operands = above ++ [.var target] ∧
    w'.bindings.names[target.index]? = some name ∧
    List.Forall₂ (Operand.Same w.bindings.names w'.bindings.names) w.operands above
  bindings : w.bindings.Alike store w'.bindings

/-- The same operands stand for the same numbers. -/
theorem Bindings.Alike.mapM_value {store : Store} {bindings bindings' : Bindings}
    (h : bindings.Alike store bindings') {operands operands' : List Operand}
    (ho : List.Forall₂ (Operand.Same bindings.names bindings'.names) operands operands') :
    operands'.mapM bindings'.value = operands.mapM bindings.value := by
  induction ho with
  | nil => rfl
  | cons hsame _ ih => rw [List.mapM_cons, List.mapM_cons, h.value_eq hsame, ih]

namespace Workspace

variable {store : Store} {name : String} {w w' v : Workspace} {op : Operation}

theorem run_of_apply (h : op.apply w = .ok () v) : w.run op = .ok v := by
  rw [run, h]

/-- Parallel actions above the same operands. -/
theorem settle_withTarget {below above : List Operand} {target : VarId} {bindings bindings' : Bindings}
    {action action' : Effect Float}
    (ht : bindings'.names[target.index]? = some name)
    (ho : List.Forall₂ (Operand.Same bindings.names bindings'.names) below above)
    (halike : bindings.Alike store bindings')
    (ha : Effect.Parallel store bindings.names bindings'.names action action')
    (h : settle below action bindings = .ok () v) :
    ∃ v', settle (above ++ [.var target]) action' bindings' = .ok () v' ∧
      v.WithTarget store name v' := by
  unfold settle at h ⊢
  split at h
  · rename_i value after he
    obtain ⟨after', he', hn, hn', halike'⟩ := ha bindings bindings' value after rfl rfl halike he
    cases h
    rw [he']
    refine ⟨_, rfl, ⟨.literal value :: above, target, rfl, hn' ▸ ht, ?_⟩, halike'⟩
    rw [hn, hn']
    exact .cons (.literal value) ho
  · cases h

namespace WithTarget

theorem length_operands (h : w.WithTarget store name w') :
    w'.operands.length = w.operands.length + 1 := by
  obtain ⟨above, target, ho, -, hsame⟩ := h.operands
  rw [ho, List.length_append, hsame.length_eq, List.length_singleton]

theorem push (h : w.WithTarget store name w') (value : Float) :
    (w.push (.literal value)).WithTarget store name (w'.push (.literal value)) := by
  obtain ⟨above, target, ho, ht, hsame⟩ := h.operands
  exact ⟨⟨.literal value :: above, target, congrArg (Operand.literal value :: ·) ho, ht,
    .cons (.literal value) hsame⟩, h.bindings⟩

/-- A name that is met gets the same variable. -/
theorem readVariable {run run' : Run} (h : run.workspace.WithTarget store name run'.workspace)
    (met : String) :
    (run.readVariable store met).workspace.WithTarget store name
      (run'.readVariable store met).workspace := by
  obtain ⟨above, target, ho, ht, hsame⟩ := h.operands
  refine ⟨⟨.var (run'.workspace.bindings.resolve met store).1 :: above, target, ?_, ?_, ?_⟩,
    h.bindings.resolve⟩
  · exact congrArg (Operand.var _ :: ·) ho
  · exact Bindings.getElem?_names_resolve_of_eq_some ht
  · refine .cons (.var Bindings.getElem?_names_resolve Bindings.getElem?_names_resolve) ?_
    exact hsame.imp fun _ _ hs => hs.mono Bindings.names_prefix_resolve Bindings.names_prefix_resolve

/-- A nominal operation takes the same operands and leaves the variable at the bottom alone. -/
theorem run (h : w.WithTarget store name w') (hn : op.IsNominal) (hr : w.run op = .ok v) :
    ∃ v', w'.run op = .ok v' ∧ v.WithTarget store name v' := by
  obtain ⟨opName, role⟩ := op
  obtain ⟨operands, bindings⟩ := w
  obtain ⟨_, bindings'⟩ := w'
  obtain ⟨⟨above, target, rfl, ht, hsame⟩, halike⟩ := h
  have hok : Operation.apply ⟨opName, role⟩ ⟨operands, bindings⟩ = .ok () v := apply_of_run hr
  suffices happly : ∃ v', Operation.apply ⟨opName, role⟩ ⟨above ++ [.var target], bindings'⟩ =
      .ok () v' ∧ v.WithTarget store name v' by
    obtain ⟨v', ha, hv⟩ := happly
    exact ⟨v', run_of_apply ha, hv⟩
  unfold Operation.apply at hok ⊢
  cases role with
  | binary priority associativity action => match operands, above, hsame, hok with
    | _ :: _ :: _, _, .cons hright (.cons hleft hbelow), hok =>
      exact settle_withTarget ht hbelow halike (hn _ _ _ _ _ _ _ hleft hright) hok
  | prefixOp priority action => match operands, above, hsame, hok with
    | _ :: _, _, .cons ho hbelow, hok =>
      exact settle_withTarget ht hbelow halike (hn _ _ _ _ _ ho) hok
  | postfixOp action => match operands, above, hsame, hok with
    | _ :: _, _, .cons ho hbelow, hok =>
      exact settle_withTarget ht hbelow halike (hn _ _ _ _ _ ho) hok
  | function arity body =>
    dsimp only at hok ⊢
    split at hok
    · rename_i hle
      have hle' : arity ≤ above.length := hsame.length_eq ▸ hle
      have hvalues : (above.take arity).reverse.mapM bindings'.value =
          (operands.take arity).reverse.mapM bindings.value :=
        halike.mapM_value (List.rel_reverse (List.forall₂_take arity hsame))
      rw [if_pos (by rw [List.length_append]; omega), List.take_append_of_le_length hle',
        List.drop_append_of_le_length hle', hvalues]
      exact settle_withTarget ht (List.forall₂_drop arity hsame) halike (Effect.parallel_ofExcept _) hok
    · cases hok
  | openBracket transform => match transform, operands, above, hsame, hn, hok with
    | some action, _ :: _, _, .cons ho hbelow, hn, hok =>
      exact settle_withTarget ht hbelow halike (hn _ _ _ _ _ ho) hok
    | none, _ :: _, _, .cons ho hbelow, _, hok =>
      cases hok
      exact ⟨_, rfl, ⟨_, target, rfl, ht, .cons ho hbelow⟩, halike⟩
  | closeBracket =>
    cases hok
    exact ⟨_, rfl, ⟨above, target, rfl, ht, hsame⟩, halike⟩

end WithTarget

end Workspace

/-! ## Behind the beginning of an assignment -/

/-- A pending operation that was met with one more operand there. -/
def Frame.raise (frame : Frame) : Frame :=
  { frame with base := frame.base + 1 }

/-- A pending operation goes with the variable at the bottom as it does without it. -/
theorem Frame.fire_raise {store : Store} {name : String} {frame : Frame} {w w' v : Workspace}
    (h : w.WithTarget store name w') (hn : frame.operation.IsNominal) (hf : frame.fire w = .ok v) :
    ∃ v', frame.raise.fire w' = .ok v' ∧ v.WithTarget store name v' := by
  obtain ⟨hrun, hd⟩ := fire_eq_ok hf
  obtain ⟨v', hrun', hv⟩ := h.run hn hrun
  refine ⟨v', ?_, hv⟩
  rw [← hrun']
  cases hs : frame.operation.isScope with
  | false => exact fire_of_not_isScope hs
  | true =>
    refine fire_of_isScope_of_eq ?_
    have hlength := h.length_operands
    have hdemand := hd hs
    simp only [raise]
    omega

/-- Whether a run is another one behind the name of a variable and the sign of assignment. -/
structure Run.Behind (store : Store) (name : String) (run run' : Run) : Prop where
  frames : run'.frames = run.frames.map Frame.raise ++ [⟨Library.assignment, 1⟩]
  workspace : run.workspace.WithTarget store name run'.workspace
  previous : run'.previous = run.previous

variable {registry : Registry} {store : Store} {name : String}

namespace Run

variable {run run' settled : Run} {token : Token} {next : Option Token}

theorem Behind.pushFrame (h : run.Behind store name run') (op : Operation) (reading : Reading) :
    (run.pushFrame op reading).Behind store name (run'.pushFrame op reading) := by
  refine ⟨?_, h.workspace, rfl⟩
  simp only [Run.pushFrame, h.frames, h.workspace.length_operands, List.map_cons, Frame.raise,
    List.cons_append]

/-- What waits first in a run waits first behind an assignment. -/
theorem Behind.frames_cons {frame : Frame} {frames : List Frame} (h : run.Behind store name run')
    (hf : run.frames = frame :: frames) :
    run'.frames = frame.raise :: (frames.map Frame.raise ++ [⟨Library.assignment, 1⟩]) := by
  rw [h.frames, hf, List.map_cons, List.cons_append]

/-- A token is read behind the beginning of an assignment as it is read without it. -/
theorem Reads.behind (hn : registry.IsNominal)
    (hf : ∀ frame ∈ run.frames, frame.operation.IsNominal)
    (hr : Reads registry store next run token settled) (h : run.Behind store name run') :
    ∃ settled', Reads registry store next run' token settled' ∧ settled.Behind store name settled' := by
  obtain ⟨frames', w', previous⟩ := run'
  obtain rfl : previous = _ := h.previous
  have hframes : frames' = run.frames.map Frame.raise ++ [⟨Library.assignment, 1⟩] := h.frames
  cases hr with
  | separator hframe hk =>
    exact ⟨_, .separator (h.frames_cons hframe) hk, hframes, h.workspace, rfl⟩
  | literal hp hv => exact ⟨_, .literal hp hv, hframes, h.workspace.push _, rfl⟩
  | @var met hp => exact ⟨_, .var hp, hframes, h.workspace.readVariable met, rfl⟩
  | function hp hnext ht ho => exact ⟨_, .function hp hnext ht ho, h.pushFrame _ _⟩
  | callOpen hp ht => exact ⟨_, .callOpen hp ht, hframes, h.workspace, rfl⟩
  | openBracket hp hc ho hk => exact ⟨_, .openBracket hp hc ho hk, h.pushFrame _ _⟩
  | callClose hc hframe hk ht hw =>
    have hnominal := hf _ (hframe ▸ List.mem_cons_self)
    obtain ⟨v', hv, hwith⟩ := Frame.fire_raise h.workspace hnominal hw
    exact ⟨_, .callClose hc (h.frames_cons hframe) hk ht hv, rfl, hwith, rfl⟩
  | closeBracket hc hframe hk ho hopener hw =>
    have hnominal := hf _ (hframe ▸ List.mem_cons_self)
    obtain ⟨v', hv, hwith⟩ := Frame.fire_raise h.workspace hnominal hw
    exact ⟨_, .closeBracket hc (h.frames_cons hframe) hk ho hopener hv, rfl, hwith, rfl⟩
  | prefixOp hp ho => exact ⟨_, .prefixOp hp ho, h.pushFrame _ _⟩
  | binary hp ho => exact ⟨_, .binary hp ho, h.pushFrame _ _⟩
  | postfixOp hp hb ho hw =>
    obtain ⟨v', hv, hwith⟩ := h.workspace.run (hn _ _ _ ho) hw
    exact ⟨_, .postfixOp hp hb ho hv, hframes, hwith, rfl⟩

/-- Where nothing has to go before a token, nothing has to behind the beginning of an assignment. The
assignment itself goes before no binary operator, and where it would go before a separator or a closing
bracket the token is not read. -/
theorem Reads.releases_behind
    (hb : ∀ name op, registry.find? name .binary = some op →
      Library.assignment.firesBefore op = false)
    (hs : ∀ frame ∈ run.frames.head?,
      releases registry run.previous (some token) frame.operation = false)
    (hr : Reads registry store next run token settled) (h : run.Behind store name run') :
    ∀ frame ∈ run'.frames.head?,
      releases registry run'.previous (some token) frame.operation = false := by
  obtain ⟨frames, w, previous⟩ := run
  rw [h.previous, h.frames]
  cases frames with
  | cons frame frames =>
    rintro _ ⟨⟩
    exact hs frame rfl
  | nil =>
    rintro _ ⟨⟩
    cases hr with
    | separator hf | callClose _ hf | closeBracket _ hf => cases hf
    | literal | var | function => simp [releases]
    | callOpen hp ht =>
      obtain rfl : previous = .function := hp
      simp [releases, Token.closes, ht]
    | openBracket hp hc ho hk =>
      simp [releases, Token.closes, ho, hk]
    | prefixOp hp =>
      have hc : previous.completesOperand = false :=
        Reading.not_completesOperand_of_expectsOperand hp
      simp [releases, hc]
    | binary hp ho => simp [releases, ho, hb _ _ ho]
    | postfixOp hp hnone => simp [releases, hnone]

end Run

/-- A step behind the beginning of an assignment is the step without it. -/
theorem Moment.Next.behind {m m' n : Moment} (hn : registry.IsNominal)
    (hb : ∀ name op, registry.find? name .binary = some op →
      Library.assignment.firesBefore op = false)
    (hf : ∀ frame ∈ m.run.frames, frame.operation.IsNominal) (h : Next registry store m n)
    (hm : m.run.Behind store name m'.run) (hrest : m'.rest = m.rest) :
    ∃ n', Next registry store m' n' ∧ n.run.Behind store name n'.run ∧ n'.rest = n.rest := by
  obtain ⟨run', index', rest'⟩ := m'
  cases h with
  | @fire frame frames w v previous index rest hr hw =>
    obtain rfl : rest' = rest := hrest
    obtain ⟨v', hv, hwith⟩ := Frame.fire_raise hm.workspace (hf frame List.mem_cons_self) hw
    obtain ⟨frames', w', previous'⟩ := run'
    obtain rfl : previous' = previous := hm.previous
    obtain rfl : frames' = _ := hm.frames_cons rfl
    exact ⟨⟨⟨_, v', previous'⟩, index', rest'⟩, .fire hr hv, ⟨rfl, hwith, rfl⟩, rfl⟩
  | @read run settled index token rest hs hstep =>
    obtain rfl : rest' = token :: rest := hrest
    have hreads := Run.step_eq_ok hs hstep
    obtain ⟨settled', hreads', hbehind⟩ := hreads.behind hn hf hm
    have hs' := hreads.releases_behind hb hs hm
    exact ⟨_, .read hs' (hreads'.step_eq hs' index'), hbehind, rfl⟩

/-- The moments behind the beginning of an assignment are those without it. -/
theorem Reaches.exists_behind {tokens : List Token} {m start : Moment} (hn : registry.IsNominal)
    (hb : ∀ name op, registry.find? name .binary = some op →
      Library.assignment.firesBefore op = false)
    (hstart : Run.start.Behind store name start.run) (hrest : start.rest = tokens)
    (h : Reaches registry store tokens m) :
    ∃ m', Relation.ReflTransGen (Moment.Next registry store) start m' ∧
      m.run.Behind store name m'.run ∧ m'.rest = m.rest := by
  induction h with
  | refl => exact ⟨start, .refl, hstart, hrest⟩
  | tail hpath hnext ih =>
    obtain ⟨m', hpath', hm, hrest⟩ := ih
    obtain ⟨n', hnext', hn', hrest'⟩ := hnext.behind hn hb (Reaches.forall_frames hn hpath) hm hrest
    exact ⟨n', hpath'.tail hnext', hn', hrest'⟩

/-! ## The outcome -/

/-- The beginning of an assignment is read. -/
theorem exists_reaches_assign (hassign : registry.find? "=" .binary = some Library.assignment)
    (store : Store) (name : String) (tokens : List Token) :
    ∃ start, Reaches registry store (⟨.var, name⟩ :: ⟨.operator, "="⟩ :: tokens) start ∧
      Run.start.Behind store name start.run ∧ start.rest = tokens := by
  have hvar : Run.step registry store .start 0 ⟨.var, name⟩ (some ⟨.operator, "="⟩) =
      .ok (Run.start.readVariable store name) := Run.step_var rfl
  have hsign : Run.step registry store (Run.start.readVariable store name) 1 ⟨.operator, "="⟩
      tokens.head? = .ok ((Run.start.readVariable store name).pushFrame Library.assignment .binary) :=
    Run.step_binary rfl hassign
  refine ⟨_, (Moment.reaches_of_step hvar).trans (Moment.reaches_of_step hsign), ⟨rfl, ?_, rfl⟩, rfl⟩
  have halike : (∅ : Bindings).Alike store (Bindings.resolve ∅ name store).2 :=
    ⟨List.nodup_nil, Bindings.nodup_names_resolve List.nodup_nil, fun _ => Bindings.lookup_resolve⟩
  exact ⟨⟨[], ⟨0⟩, rfl, rfl, .nil⟩, halike⟩

/-- Where only the assignment waits, with the operand that it assigns, the evaluation ends with the
value of the operand. -/
theorem Moment.result_assign {m : Moment} {operand : Operand} {target : VarId} {value : Float}
    (hrest : m.rest = []) (hframes : m.run.frames = [⟨Library.assignment, 1⟩])
    (hoperands : m.run.workspace.operands = [operand, .var target])
    (hvalue : m.run.workspace.bindings.value operand = .ok value) :
    m.result registry store = .ok (value, m.run.workspace.bindings.set target value) := by
  obtain ⟨⟨_, ⟨_, bindings⟩, previous⟩, index, _⟩ := m
  obtain rfl : _ = _ := hrest
  obtain rfl : _ = _ := hframes
  obtain rfl : _ = _ := hoperands
  have haction : Effect.assign "=" (.var target) operand bindings =
      .ok value (bindings.set target value) := by
    simp only [Effect.assign, Bind.bind, EStateM.bind, Effect.read_of_value_eq_ok hvalue]
    rfl
  have hfire : Frame.fire ⟨Library.assignment, 1⟩ ⟨[operand, .var target], bindings⟩ =
      .ok ⟨[.literal value], bindings.set target value⟩ := by
    refine (Frame.fire_of_not_isScope rfl).trans (Workspace.run_of_apply ?_)
    simp only [Library.assignment, Operation.apply, Workspace.settle, haction]
  rw [result_of_releases rfl, hfire, ok_bind]
  rfl

/-- Assignment binds less than all binary operators and groups to the right. -/
theorem Library.firesBefore_assignment (name : String) (op : Operation)
    (h : Library.registry.find? name .binary = some op) : assignment.firesBefore op = false := by
  have hall : ∀ op ∈ bundle, assignment.firesBefore op = false := by decide
  exact hall op (mem_bundle_of_find? h)

/-- Over the bundled operations, assigning the value of an expression to a variable has that value, and
leaves the store as the expression alone does, with the variable set to it. -/
theorem evaluateTokens_assign {tokens : List Token} {value : Float}
    (h : (evaluateTokens Library.registry store tokens).result = .ok value) (name : String) :
    evaluateTokens Library.registry store (⟨.var, name⟩ :: ⟨.operator, "="⟩ :: tokens) =
      ⟨.ok value, (evaluateTokens Library.registry store tokens).store.insert name value⟩ := by
  obtain ⟨bindings, hr⟩ := exists_runAll h
  obtain ⟨operand, previous, index, hreach, hvalue⟩ := exists_reaches hr
  have hassign : Library.registry.find? "=" .binary = some Library.assignment :=
    (Library.find?_registry _ _).trans rfl
  obtain ⟨start, hstart, hbehind, hrest⟩ := exists_reaches_assign hassign store name tokens
  obtain ⟨m, hpath, hm, hend⟩ := Reaches.exists_behind Library.isNominal_registry
    Library.firesBefore_assignment hbehind hrest hreach
  obtain ⟨above, target, hoperands, htarget, hsame⟩ := hm.workspace.operands
  cases hsame with
  | @cons _ operand' _ _ ho hnil =>
    cases hnil
    have hvalue' : m.run.workspace.bindings.value operand' = .ok value := by
      rw [hm.workspace.bindings.value_eq ho, hvalue]
    have hresult : m.result Library.registry store =
        .ok (value, m.run.workspace.bindings.set target value) :=
      Moment.result_assign hend hm.frames hoperands hvalue'
    have hrun := (Reaches.result_eq (hstart.trans hpath)).symm.trans hresult
    rw [evaluateTokens_of_ok hrun, evaluateTokens_of_ok hr]
    congr 1
    refine Store.ext_get? fun other => ?_
    have hnodup := hm.workspace.bindings.nodup'
    rw [Store.get?_commit_eq_lookup (by rwa [Bindings.names_set]), Store.get?_insert,
      Store.get?_commit_eq_lookup hm.workspace.bindings.nodup, Bindings.lookup_set hnodup htarget,
      hm.workspace.bindings.lookup]
    by_cases hname : other = name
    · rw [if_pos hname, if_pos hname.symm, Option.some_or]
    · rw [if_neg hname, if_neg (Ne.symm hname)]

/-- In `x = y = x++ + 2` the variable `x` is stepped first, and then gets the value of the sum. -/
theorem evaluateTokens_assign_sample :
    let store := (∅ : Store).insert "x" 5
    let tokens : List Token := [⟨.var, "y"⟩, ⟨.operator, "="⟩, ⟨.var, "x"⟩, ⟨.operator, "++"⟩,
      ⟨.operator, "+"⟩, ⟨.literal, "2"⟩]
    (evaluateTokens Library.registry store tokens).result = .ok 7 ∧
      (evaluateTokens Library.registry store tokens).store.get? "x" = some 6 ∧
      evaluateTokens Library.registry store (⟨.var, "x"⟩ :: ⟨.operator, "="⟩ :: tokens) =
        ⟨.ok 7, (evaluateTokens Library.registry store tokens).store.insert "x" 7⟩ := by
  intro store tokens
  have hvalue : (evaluateTokens Library.registry store tokens).result = .ok 7 := by decide +kernel
  exact ⟨hvalue, by decide +kernel, evaluateTokens_assign hvalue "x"⟩

end Abacus
