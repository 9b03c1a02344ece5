import Abacus.Proofs.Evaluation.Moment
import Abacus.Proofs.Operation.Orderly
import Abacus.Proofs.Variables.Indexed

/-!
# The slots of variables

Operands and variables are worked on together: names are resolved, slots are read and written,
operands are pushed and operations applied, in any order, with stores that may change in between
(`Session`). What an operation does is a procedure, so that all its accesses are told by the log, also
those that come before a failure (`Session.apply`).

A variable that waits among the operands was resolved before (`Session.mem_returned`), so that all
accesses are with slots that were returned (`Session.accesses`). All that is to be known of the
variables is then told by the log (`Session.accounted`): which slot a name has, that each slot that is
used is there, and what its value is. Orderly operations can be applied in any session
(`Session.exists_apply`), and every evaluation over them is a session (`Reaches.exists_session`). All of
this together is `Session.isAccountedFor`.
-/

namespace Abacus

open Access (returned resolved)

/-! ## Applying operations -/

/-- The operands and variables after an operation was applied, whether or not it has failed. -/
def Workspace.after (w : Workspace) (op : Operation) : Workspace :=
  match op.apply w with
  | .ok _ w | .error _ w => w

/-- An operation that is handed the operands that it demands does to the variables what its effect
does, and one number at most takes the place of these operands. -/
theorem Workspace.after_of_effect? {w : Workspace} {op : Operation} {handed below : List Operand}
    {effect : Effect Float} (ho : w.operands = handed.reverse ++ below)
    (hd : handed.length = op.demand) (he : op.effect? handed = some effect) :
    (w.after op).bindings = effect.after w.bindings ∧
      ((w.after op).operands = below ∨ ∃ value, (w.after op).operands = .literal value :: below) := by
  have happly := Operation.apply_of_append ho hd
  rw [he] at happly
  rw [after, happly.2, settle, Effect.after]
  cases effect w.bindings with
  | ok value bindings => exact ⟨rfl, .inr ⟨value, rfl⟩⟩
  | error error bindings => exact ⟨rfl, .inl rfl⟩

/-- An operation that is applied leaves everything as it was, or it is handed the topmost operands. -/
theorem Workspace.after_eq (w : Workspace) (op : Operation) :
    w.after op = w ∨ ∃ handed below effect, w.operands = handed.reverse ++ below ∧
      handed.length = op.demand ∧ op.effect? handed = some effect := by
  by_cases hlt : w.operands.length < op.demand
  · left
    rw [after, Operation.apply_of_lt_demand hlt]
  · have ho : w.operands =
        (w.operands.take op.demand).reverse.reverse ++ w.operands.drop op.demand := by
      rw [List.reverse_reverse, List.take_append_drop]
    have hd : (w.operands.take op.demand).reverse.length = op.demand := by
      rw [List.length_reverse, List.length_take_of_le (Nat.not_lt.1 hlt)]
    cases he : op.effect? (w.operands.take op.demand).reverse with
    | none =>
      have happly := Operation.apply_of_append ho hd
      rw [he] at happly
      left
      rw [after, happly.2]
    | some effect => exact .inr ⟨_, _, effect, ho, hd, he⟩

/-- Applying an operation makes no operand wait that is a variable. -/
theorem Workspace.mem_operands_of_after {w : Workspace} {op : Operation} {id : VarId}
    (h : .var id ∈ (w.after op).operands) : .var id ∈ w.operands := by
  rcases w.after_eq op with hsame | ⟨handed, below, effect, ho, hd, he⟩
  · rwa [hsame] at h
  · rw [ho]
    refine List.mem_append_right _ ?_
    obtain ⟨-, hbelow | ⟨value, hvalue⟩⟩ := after_of_effect? ho hd he
    · rwa [hbelow] at h
    · rw [hvalue] at h
      exact (List.mem_cons.1 h).resolve_left nofun

/-! ## Sessions -/

/-- What has been done since there were no operands and no variables, and what has become of them.
The log tells all accesses to the variables. An operation that is applied where too few operands wait,
or that has nothing to do, is not told, since it leaves all as it was (`Workspace.after_eq`). -/
inductive Session : List Access → Workspace → Prop where
  /-- Nothing has been done. -/
  | start : Session [] ∅
  /-- The variables are accessed, with slots that were returned. -/
  | access {log : List Access} {w : Workspace} {access : Access} {bindings : Bindings}
    (h : Session log w) (hu : ∀ id ∈ access.uses, id ∈ returned log)
    (ha : access.Leads w.bindings bindings) : Session (log ++ [access]) ⟨w.operands, bindings⟩
  /-- A number waits from now on, or a variable whose slot was returned. -/
  | push {log : List Access} {w : Workspace} {operand : Operand} (h : Session log w)
    (ho : ∀ id, operand = .var id → id ∈ returned log) : Session log (w.push operand)
  /-- An operation is applied. What it does with the operands that it demands is a procedure, which
  uses slots that were returned before or that it is returned itself. So it acts on the variables by
  accesses only: an operation that puts other variables in the place of all that there are is left out,
  and so is one that uses the slots of other variables than these. -/
  | apply {log : List Access} {w : Workspace} {op : Operation} {handed below : List Operand}
    {procedure : Procedure Float} (h : Session log w) (hw : w.operands = handed.reverse ++ below)
    (hd : handed.length = op.demand) (he : op.effect? handed = some procedure.run)
    (ha : Accesses (returned log) w.bindings (procedure.log w.bindings)
      (procedure.run.after w.bindings)) :
    Session (log ++ procedure.log w.bindings) (w.after op)

namespace Session

variable {log : List Access} {w : Workspace} {op : Operation}

/-- The slot of a variable that waits was returned. -/
theorem mem_returned (h : Session log w) {id : VarId} (ho : .var id ∈ w.operands) :
    id ∈ returned log := by
  induction h with
  | start => cases ho
  | access _ _ _ ih =>
    rw [Access.returned_append]
    exact List.mem_append_left _ (ih ho)
  | push _ hu ih => exact (List.mem_cons.1 ho).elim (fun he => hu id he.symm) ih
  | apply _ _ _ _ _ ih =>
    rw [Access.returned_append]
    exact List.mem_append_left _ (ih (Workspace.mem_operands_of_after ho))

/-- The log of a session tells accesses to new variables. -/
theorem accesses (h : Session log w) : Accesses [] ∅ log w.bindings := by
  induction h with
  | start => exact .nil
  | access _ hu ha ih => exact .concat ih (fun id hid => .inr (hu id hid)) ha
  | push _ _ ih => exact ih
  | apply _ hw hd he ha ih =>
    rw [(Workspace.after_of_effect? hw hd he).1]
    exact ih.append ha

/-- An orderly operation can be applied in any session. -/
theorem exists_apply (h : Session log w) (ho : op.IsOrderly) :
    ∃ later, Session (log ++ later) (w.after op) := by
  rcases w.after_eq op with hsame | ⟨handed, below, effect, hw, hd, he⟩
  · refine ⟨[], ?_⟩
    rwa [hsame, List.append_nil]
  · obtain ⟨procedure, rfl, hlog⟩ := ho.effect he
    refine ⟨_, h.apply hw hd he ((hlog w.bindings).mono fun id hid => h.mem_returned ?_)⟩
    rw [hw]
    exact List.mem_append_left _ (List.mem_reverse.2 (mem_slotsOf_iff.1 hid))

/-- A variable of a name can be made to wait in any session. -/
theorem exists_readVariable (h : Session log w) (store : Store) (name : String) :
    ∃ later, Session (log ++ later)
      ⟨.var (w.bindings.resolve name store).1 :: w.operands, (w.bindings.resolve name store).2⟩ := by
  have hresolved := h.access (List.forall_mem_nil _) (.resolve w.bindings name store)
  refine ⟨_, hresolved.push fun id hid => ?_⟩
  obtain rfl := Operand.var.inj hid
  exact Access.mem_returned_iff.2 ⟨name, store, List.mem_append_right _ (List.mem_singleton_self _)⟩

end Session

/-! ## Evaluations -/

section Evaluations

variable {registry : Registry} {store : Store} {log : List Access} {m m' : Moment}

theorem Workspace.after_of_run {w w' : Workspace} {op : Operation} (h : w.run op = .ok w') :
    w.after op = w' := by
  rw [after, apply_of_run h]

/-- A step of an evaluation carries on a session, if the operations that wait and those of the
registry are orderly. -/
theorem Moment.Next.exists_session
    (ho : ∀ name kind op, registry.find? name kind = some op → op.IsOrderly)
    (hf : ∀ frame ∈ m.run.frames, frame.operation.IsOrderly) (h : Session log m.run.workspace)
    (hn : Next registry store m m') : ∃ later, Session (log ++ later) m'.run.workspace := by
  have hrun : ∀ {op : Operation}, op.IsOrderly → m.run.workspace.run op = .ok m'.run.workspace →
      ∃ later, Session (log ++ later) m'.run.workspace := by
    intro op hop hr
    rw [← Workspace.after_of_run hr]
    exact h.exists_apply hop
  have hsame : m'.run.workspace = m.run.workspace →
      ∃ later, Session (log ++ later) m'.run.workspace := by
    intro he
    rw [he]
    exact ⟨[], by rwa [List.append_nil]⟩
  cases hn with
  | fire _ hw => exact hrun (hf _ List.mem_cons_self) (Frame.fire_eq_ok hw).1
  | read hs hr =>
    cases Run.step_eq_ok hs hr with
    | separator | callOpen | function | prefixOp | binary | openBracket => exact hsame rfl
    | literal =>
      refine ⟨[], ?_⟩
      rw [List.append_nil]
      exact h.push fun id hid => by cases hid
    | @var name => exact h.exists_readVariable store name
    | callClose _ he _ _ hw | closeBracket _ he _ _ _ hw =>
      exact hrun (hf _ (he ▸ List.mem_cons_self)) (Frame.fire_eq_ok hw).1
    | postfixOp _ _ hfind hw => exact hrun (ho _ _ _ hfind) hw

/-- Over orderly operations every evaluation is a session, at all of its moments. -/
theorem Reaches.exists_session {tokens : List Token}
    (ho : ∀ name kind op, registry.find? name kind = some op → op.IsOrderly)
    (h : Reaches registry store tokens m) : ∃ log, Session log m.run.workspace := by
  induction h with
  | refl => exact ⟨[], .start⟩
  | tail hm hn ih =>
    obtain ⟨log, hlog⟩ := ih
    obtain ⟨later, hlater⟩ := hn.exists_session ho (Reaches.forall_frames ho hm) hlog
    exact ⟨log ++ later, hlater⟩

end Evaluations

/-! ## What the log of a session tells -/

/-- Whether the log of a session tells what has become of the variables. -/
structure Workspace.IsAccountedFor (w : Workspace) (log : List Access) : Prop where
  /-- No name has two slots. -/
  nodup : w.bindings.names.Nodup
  /-- The slots stand in the order in which their names were resolved first. -/
  names : w.bindings.names = (resolved log).eraseDups
  /-- Variables with an index have followed the log without missing a slot, and all has come to the
  same with them. The index has exactly the names of the slots, each with its own slot. -/
  index : ∃ table : Bindings.Indexed, log.foldlM Bindings.Indexed.follow? ∅ = some table ∧
    table.toBindings = w.bindings ∧
    ∀ (name : String) (id : VarId),
      table.ids[name]? = some id ↔ w.bindings.names[id.index]? = some name
  /-- All slots that were returned or that wait are there. -/
  inRange : ∀ id : VarId, id ∈ returned log ∨ .var id ∈ w.operands → id.index < w.bindings.size
  /-- The slots that names were resolved to are the same exactly if the names are. -/
  eq_iff : ∀ {name name' : String} {store store' : Store} {id id' : VarId},
    .resolve name store id ∈ log → .resolve name' store' id' ∈ log → (id = id' ↔ name = name')
  /-- A variable has the value that was last written to the slot of its name, or, if none was, what
  the store had when the name was resolved first. -/
  value : ∀ {name : String} {store : Store} {id : VarId}, .resolve name store id ∈ log →
    w.bindings.value (.var id) = Access.reading log id name
  /-- This was so whenever a variable was read. -/
  read : ∀ {before later : List Access} {id : VarId} {outcome : Except EvalError Float},
    log = before ++ .read (.var id) outcome :: later →
    ∃ name store, .resolve name store id ∈ before ∧ outcome = Access.reading before id name
  /-- A slot has always been told to have the name for which it was returned. -/
  nameOf : ∀ {before later : List Access} {id : VarId} {name : String},
    log = before ++ .nameOf id name :: later →
    ∃ store, .resolve name store id ∈ before

theorem Session.accounted {log : List Access} {w : Workspace} (h : Session log w) :
    w.IsAccountedFor log := by
  have hrecorded := h.accesses.isRecorded
  obtain ⟨table, hfollow, hbindings, hexact⟩ := h.accesses.exists_indexed
  exact {
    nodup := hrecorded.nodup
    names := hrecorded.names
    index := ⟨table, hfollow, hbindings, fun name id => hbindings ▸ hexact name id⟩
    inRange := fun id hid =>
      hrecorded.lt_size_of_mem_returned (hid.elim (fun hm => hm) h.mem_returned)
    eq_iff := hrecorded.eq_iff
    value := hrecorded.value_eq
    read := fun hlog => Accesses.outcome_eq (hlog ▸ h.accesses)
    nameOf := fun hlog => Accesses.exists_resolve_of_nameOf (hlog ▸ h.accesses) }

/-- In every session the log tells what has become of the variables. All operations that are bundled,
extra, described by a rule or otherwise orderly can be applied in a session. Over such operations every
evaluation is a session, so that at all of its moments a log tells what has become of its variables. -/
theorem Session.isAccountedFor {log : List Access} {w : Workspace} (h : Session log w) :
    w.IsAccountedFor log ∧
    (∀ op : Operation, Library.Stock op ∨ op.IsOrderly →
      ∃ later, Session (log ++ later) (w.after op)) ∧
    ∀ (registry : Registry) (store : Store) (tokens : List Token) (m : Moment),
      (∀ name kind op, registry.find? name kind = some op → Library.Stock op ∨ op.IsOrderly) →
      Reaches registry store tokens m →
      ∃ log, Session log m.run.workspace ∧ m.run.workspace.IsAccountedFor log := by
  have horderly : ∀ {op : Operation}, Library.Stock op ∨ op.IsOrderly → op.IsOrderly :=
    fun ho => ho.elim (·.isOrderly) id
  refine ⟨h.accounted, fun op ho => h.exists_apply (horderly ho), fun registry store tokens m ho hm => ?_⟩
  obtain ⟨later, hlater⟩ := hm.exists_session fun name kind op hf => horderly (ho name kind op hf)
  exact ⟨later, hlater, hlater.accounted⟩

/-- The variable `x` is resolved and waits, and so does `y`, which is assigned the number 8. Then `x`
is resolved again, with a store that has another value for it: it has the slot and the value from
before. -/
theorem Session.isAccountedFor_sample :
    let first := (∅ : Store).insert "x" 3.0
    let second := (∅ : Store).insert "x" 5.0
    let log : List Access := [.resolve "x" first ⟨0⟩, .resolve "y" first ⟨1⟩,
      .read (.literal 8.0) (.ok 8.0), .write ⟨1⟩ 8.0, .resolve "x" second ⟨0⟩]
    ∃ w, Session log w ∧ w.operands = [.literal 8.0, .var ⟨0⟩] ∧ w.bindings.names = ["x", "y"] ∧
      (∃ table : Bindings.Indexed, log.foldlM Bindings.Indexed.follow? ∅ = some table ∧
        table.ids["y"]? = some ⟨1⟩) ∧
      w.bindings.value (.var ⟨0⟩) = .ok 3.0 ∧ w.bindings.value (.var ⟨1⟩) = .ok 8.0 := by
  intro first second log
  have hx : Session [.resolve "x" first ⟨0⟩] ⟨[.var ⟨0⟩], ⟨[⟨"x", some 3.0⟩]⟩⟩ := by
    refine .push (.access .start (List.forall_mem_nil _) (.resolve ∅ "x" first)) fun id hid => ?_
    obtain rfl := Operand.var.inj hid
    decide
  have hy : Session [.resolve "x" first ⟨0⟩, .resolve "y" first ⟨1⟩]
      ⟨[.var ⟨1⟩, .var ⟨0⟩], ⟨[⟨"x", some 3.0⟩, ⟨"y", none⟩]⟩⟩ := by
    refine .push (hx.access (List.forall_mem_nil _) (.resolve _ "y" first)) fun id hid => ?_
    obtain rfl := Operand.var.inj hid
    decide
  have height : Session [.resolve "x" first ⟨0⟩, .resolve "y" first ⟨1⟩]
      ⟨[.literal 8.0, .var ⟨1⟩, .var ⟨0⟩], ⟨[⟨"x", some 3.0⟩, ⟨"y", none⟩]⟩⟩ :=
    hy.push fun id hid => by cases hid
  let procedure : Procedure Float := (Procedure.read (.literal 8.0) .done).bind fun value =>
    .write ⟨1⟩ value (.done (.ok value))
  have hwaiting : [.literal 8.0, .var ⟨1⟩, .var ⟨0⟩] =
      [.var ⟨1⟩, .literal 8.0].reverse ++ [Operand.var ⟨0⟩] := rfl
  have heffect : Library.assignment.effect? [.var ⟨1⟩, .literal 8.0] = some procedure.run := rfl
  have haccesses : Accesses [⟨0⟩, ⟨1⟩] ⟨[⟨"x", some 3.0⟩, ⟨"y", none⟩]⟩
      [.read (.literal 8.0) (.ok 8.0), .write ⟨1⟩ 8.0] ⟨[⟨"x", some 3.0⟩, ⟨"y", some 8.0⟩]⟩ :=
    .concat (.concat .nil (by decide) (.read _ (.literal 8.0))) (by decide) (.write _ ⟨1⟩ 8.0)
  have hassigned : Session (log.take 4)
      ⟨[.literal 8.0, .var ⟨0⟩], ⟨[⟨"x", some 3.0⟩, ⟨"y", some 8.0⟩]⟩⟩ :=
    height.apply hwaiting rfl heffect haccesses
  have hagain : Session log ⟨[.literal 8.0, .var ⟨0⟩], ⟨[⟨"x", some 3.0⟩, ⟨"y", some 8.0⟩]⟩⟩ :=
    hassigned.access (List.forall_mem_nil _)
      (.resolve ⟨[⟨"x", some 3.0⟩, ⟨"y", some 8.0⟩]⟩ "x" second)
  obtain ⟨haccount, -, -⟩ := hagain.isAccountedFor
  obtain ⟨table, hfollow, -, hids⟩ := haccount.index
  refine ⟨_, hagain, rfl, haccount.names.trans rfl, ⟨table, hfollow, (hids _ _).2 rfl⟩, ?_, ?_⟩
  · exact (haccount.value List.mem_cons_self).trans rfl
  · exact (haccount.value (List.mem_cons_of_mem _ List.mem_cons_self)).trans rfl

end Abacus
