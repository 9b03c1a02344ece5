import Mathlib.Control.Monad.Basic
import Abacus.Proofs.Evaluation.Agreement
import Abacus.Proofs.Operation.Thorough

/-!
# Variables that end up stored

Over thorough operations, an evaluation that has a value leaves no operand behind. Each operand that
waits is handed to some operation, which reads or assigns it, or it is left at the end and is read
then. So every variable that is named has a value in the end and is stored
(`stored_of_evaluateTokens`).

An operand is held if it waits or has a value (`Workspace.Holds`). Along an evaluation what is held
stays held (`Workspace.Advances`): applying an operation gives the operands that it takes a value
(`Workspace.advances_of_run`), but for a bracket that hands its operand on, and nothing takes a value
away. At the end only the operand of the result waits, and it has the value that is returned.
-/

namespace Abacus

/-! ## Operands that wait or have a value -/

/-- Arguments that can be read have values. -/
theorem Bindings.hasValue_of_mapM {bindings : Bindings} {operands : List Operand} {values : List Float}
    (h : operands.mapM bindings.value = .ok values) :
    ∀ operand ∈ operands, bindings.HasValue operand := by
  induction operands generalizing values with
  | nil => exact nofun
  | cons operand operands ih =>
    rw [List.mapM_cons] at h
    obtain ⟨value, hv, h⟩ := bind_eq_ok.1 h
    obtain ⟨values', hvs, _⟩ := bind_eq_ok.1 h
    exact List.forall_mem_cons.2 ⟨⟨value, hv⟩, ih hvs⟩

/-- A call has read all its arguments. -/
theorem Bindings.settled_of_call {bindings after : Bindings} {operands : List Operand} {value : Float}
    {body : List Float → Except EvalError Float}
    (h : Effect.ofExcept (operands.reverse.mapM bindings.value >>= body) bindings = .ok value after) :
    bindings.Settled operands after := by
  cases hr : operands.reverse.mapM bindings.value >>= body with
  | error error =>
    rw [hr] at h
    cases h
  | ok result =>
    rw [hr] at h
    cases h
    obtain ⟨values, hv, _⟩ := bind_eq_ok.1 hr
    exact ⟨List.prefix_rfl, fun _ h => h, fun operand hm _ =>
      hasValue_of_mapM hv operand (List.mem_reverse.2 hm)⟩

namespace Workspace

/-- Whether an operand waits or has a value. -/
def Holds (w : Workspace) (operand : Operand) : Prop :=
  operand ∈ w.operands ∨ w.bindings.HasValue operand

/-- Whether all operands that wait are numbers or variables that are there. -/
def IsCovered (w : Workspace) : Prop :=
  ∀ operand ∈ w.operands, w.bindings.Covers operand

/-- What waited waits or has a value, no variable or value has been taken away, and all that waits is
covered. -/
structure Advances (w w' : Workspace) : Prop where
  bindings : w.bindings.Settled [] w'.bindings
  holds : ∀ operand ∈ w.operands, w'.Holds operand
  covered : w'.IsCovered

variable {w w' w'' : Workspace} {operand : Operand} {op : Operation}

theorem Advances.refl (hc : w.IsCovered) : w.Advances w :=
  ⟨.refl, fun _ h => .inl h, hc⟩

/-- What is held stays held. -/
theorem Advances.holds_of_holds (h : w.Advances w') (ho : w.Holds operand) : w'.Holds operand :=
  ho.elim (h.holds operand) fun hv => .inr (h.bindings.kept operand hv)

theorem Advances.trans (h : w.Advances w') (h' : w'.Advances w'') : w.Advances w'' where
  bindings := h.bindings.trans h'.bindings
  holds operand ho := h'.holds_of_holds (h.holds operand ho)
  covered := h'.covered

theorem advances_push (hc : w.IsCovered) (value : Float) : w.Advances (w.push (.literal value)) where
  bindings := .refl
  holds _ ho := .inl (List.mem_cons_of_mem _ ho)
  covered := List.forall_mem_cons.2 ⟨trivial, hc⟩

/-- An action that settles the operands it is handed advances the evaluation. -/
theorem advances_of_settle (handed : List Operand) {below : List Operand} {action : Effect Float}
    (ho : w.operands = handed ++ below) (hc : w.IsCovered)
    (ha : ∀ value after, action w.bindings = .ok value after → w.bindings.Settled handed after)
    (h : settle below action w.bindings = .ok () w') : w.Advances w' := by
  unfold settle at h
  split at h
  · rename_i value after he
    cases h
    have hs := ha value after he
    rw [IsCovered, ho, List.forall_mem_append] at hc
    refine ⟨hs.mono (List.nil_subset _), ?_, ?_⟩
    · rw [ho, List.forall_mem_append]
      exact ⟨fun operand hm => .inr (hs.handed operand hm (hc.1 operand hm)),
        fun operand hm => .inl (List.mem_cons_of_mem _ hm)⟩
    · exact List.forall_mem_cons.2 ⟨trivial, fun operand hm => hs.covers (hc.2 operand hm)⟩
  · cases h

/-- Applying a thorough operation advances the evaluation. -/
theorem advances_of_run (ht : op.IsThorough) (hc : w.IsCovered) (h : w.run op = .ok w') :
    w.Advances w' := by
  obtain ⟨name, role⟩ := op
  obtain ⟨operands, bindings⟩ := w
  have hok : Operation.apply ⟨name, role⟩ ⟨operands, bindings⟩ = .ok () w' := apply_of_run h
  unfold Operation.apply at hok
  cases role with
  | binary priority associativity action => match operands, hok with
    | right :: left :: below, hok =>
      exact advances_of_settle [right, left] rfl hc
        (fun value after he => (ht left right _ value after he).mono (by simp)) hok
  | prefixOp priority action => match operands, hok with
    | operand :: below, hok =>
      exact advances_of_settle [operand] rfl hc (ht operand _) hok
  | postfixOp action => match operands, hok with
    | operand :: below, hok =>
      exact advances_of_settle [operand] rfl hc (ht operand _) hok
  | function arity body =>
    dsimp only at hok
    split at hok
    · exact advances_of_settle _ (List.take_append_drop arity operands).symm hc
        (fun _ _ => Bindings.settled_of_call) hok
    · cases hok
  | openBracket transform => match transform, operands, hok with
    | some action, operand :: below, hok =>
      exact advances_of_settle [operand] rfl hc (ht operand _) hok
    | none, operand :: below, hok =>
      cases hok
      exact .refl hc
  | closeBracket opener =>
    cases hok
    exact .refl hc

end Workspace

/-! ## Moments -/

theorem Bindings.settled_resolve {bindings : Bindings} {name : String} {store : Store} :
    bindings.Settled [] (bindings.resolve name store).2 := by
  refine ⟨?_, fun operand ho => ?_, nofun⟩
  · rw [names_resolve]
    split
    · exact List.prefix_rfl
    · exact List.prefix_append _ _
  · cases hid : bindings.idOf? name with
    | some id => rwa [resolve_of_idOf?_eq_some hid]
    | none =>
      rw [resolve_of_idOf?_eq_none hid]
      cases operand with
      | literal value => exact hasValue_literal value
      | var id =>
        rw [hasValue_var_iff] at ho ⊢
        obtain ⟨value, hv⟩ := Option.isSome_iff_exists.1 ho
        obtain ⟨slot, hs, _⟩ := Option.bind_eq_some_iff.1 hv
        rwa [read?, List.getElem?_append_left (List.getElem?_eq_some_iff.1 hs).1]

theorem Bindings.covers_resolve {bindings : Bindings} {name : String} {store : Store} :
    (bindings.resolve name store).2.Covers (.var (bindings.resolve name store).1) := by
  rw [Covers, ← length_names]
  exact (List.getElem?_eq_some_iff.1 getElem?_names_resolve).1

namespace Moment

variable {registry : Registry} {store : Store} {m m' : Moment} {run : Run}

theorem advances_readVariable (hc : run.workspace.IsCovered) (name : String) :
    run.workspace.Advances (run.readVariable store name).workspace where
  bindings := Bindings.settled_resolve
  holds _ ho := .inl (List.mem_cons_of_mem _ ho)
  covered := List.forall_mem_cons.2
    ⟨Bindings.covers_resolve, fun operand ho => Bindings.settled_resolve.covers (hc operand ho)⟩

theorem advances_of_fire {frame : Frame} {w w' : Workspace} (ht : frame.operation.IsThorough)
    (hc : w.IsCovered) (h : frame.fire w = .ok w') : w.Advances w' :=
  Workspace.advances_of_run ht hc (Frame.fire_eq_ok h).1

/-- Over thorough operations every step advances the evaluation. -/
theorem Next.advances (ht : registry.IsThorough)
    (hf : ∀ frame ∈ m.run.frames, frame.operation.IsThorough) (hc : m.run.workspace.IsCovered)
    (h : Next registry store m m') : m.run.workspace.Advances m'.run.workspace := by
  cases h with
  | fire _ hw => exact advances_of_fire (hf _ List.mem_cons_self) hc hw
  | read hs hr =>
    cases Run.step_eq_ok hs hr with
    | separator | callOpen | function | prefixOp | binary | openBracket => exact .refl hc
    | literal => exact Workspace.advances_push hc _
    | @var name => exact advances_readVariable hc name
    | callClose _ he _ _ hw | closeBracket _ he _ _ _ hw =>
      exact advances_of_fire (hf _ (he ▸ List.mem_cons_self)) hc hw
    | postfixOp _ _ ho hw => exact Workspace.advances_of_run (ht _ _ _ ho) hc hw

end Moment

namespace Reaches

variable {registry : Registry} {store : Store} {tokens : List Token} {m m' : Moment}

theorem isCovered (ht : registry.IsThorough) (h : Reaches registry store tokens m) :
    m.run.workspace.IsCovered := by
  induction h with
  | refl => exact nofun
  | tail ha hn ih => exact (hn.advances ht (forall_frames ht ha) ih).covered

theorem advances (ht : registry.IsThorough) (h : Reaches registry store tokens m)
    (hp : Relation.ReflTransGen (Moment.Next registry store) m m') :
    m.run.workspace.Advances m'.run.workspace := by
  induction hp with
  | refl => exact .refl (h.isCovered ht)
  | tail hp hn ih =>
    have hm := h.trans hp
    exact ih.trans (hn.advances ht (forall_frames ht hm) (isCovered ht hm))

/-- A variable that is named is still to be read, or it has a slot and is held. -/
theorem exists_holds (ht : registry.IsThorough) (h : Reaches registry store tokens m) {name : String}
    (hn : name ∈ variableNames tokens) :
    name ∈ variableNames m.rest ∨ ∃ id : VarId,
      m.run.workspace.bindings.names[id.index]? = some name ∧ m.run.workspace.Holds (.var id) := by
  induction h with
  | refl => exact .inl hn
  | @tail a b ha hstep ih =>
    have hadvances := hstep.advances ht (forall_frames ht ha) (isCovered ht ha)
    rcases ih with hrest | ⟨id, hid, ho⟩
    -- Only a token that is the name itself ends the wait for it.
    · cases hstep with
      | fire => exact .inl hrest
      | @read run run' index token rest hs hr =>
        rcases List.mem_cons.1 (mem_variableNames.1 hrest) with rfl | hm
        · cases Run.step_eq_ok hs hr with
          | var => exact .inr ⟨_, Bindings.getElem?_names_resolve, .inl List.mem_cons_self⟩
        · exact .inl (mem_variableNames.2 hm)
    · obtain ⟨later, hnames⟩ := hadvances.bindings.names
      refine .inr ⟨id, ?_, hadvances.holds_of_holds ho⟩
      rw [← hnames, List.getElem?_append_left (List.getElem?_eq_some_iff.1 hid).1, hid]

end Reaches

/-! ## The outcome -/

namespace Store

variable {store : Store} {name : String} {value : Float}

/-- What is stored stays stored while other variables are. -/
theorem contains_insertMany {entries : List (String × Option Float)}
    (h : store.contains name = true ∨ ∃ value, (name, some value) ∈ entries) :
    (store.insertMany entries).contains name = true := by
  induction entries generalizing store with
  | nil => simpa using h
  | cons entry entries ih =>
    obtain ⟨other, value?⟩ := entry
    rw [insertMany_cons]
    refine ih ?_
    rcases h with h | ⟨value, hm⟩
    · left
      cases value? with
      | none => exact h
      | some value =>
        rw [contains, Option.elim_some, get?_insert]
        split
        · rfl
        · exact h
    · rcases List.mem_cons.1 hm with he | hm
      · obtain ⟨rfl, rfl⟩ := Prod.mk.inj he
        exact .inl (by simp [contains, get?_insert])
      · exact .inr ⟨value, hm⟩

end Store

/-- An evaluation with a value ends with one operand, which has the value, and every moment of it
leads there. -/
theorem Reaches.exists_path {registry : Registry} {store : Store} {tokens : List Token} {m : Moment}
    {value : Float} {bindings : Bindings} (hm : Reaches registry store tokens m)
    (h : runAll registry store tokens = .ok (value, bindings)) :
    ∃ last operand, Relation.ReflTransGen (Moment.Next registry store) m last ∧ last.rest = [] ∧
      last.run.workspace = ⟨[operand], bindings⟩ ∧ bindings.value operand = .ok value := by
  rw [← hm.result_eq] at h
  obtain ⟨run, hrun, hfinish⟩ := bind_eq_ok.1 h
  obtain ⟨operand, hv, hpath⟩ := Moment.reaches_of_finish hfinish
  exact ⟨_, operand, (Moment.reaches_of_runTokens hrun).trans hpath, rfl, rfl, hv⟩

/-- Where only the operand of the result waits, and it has a value, all that is held has one. -/
theorem Workspace.hasValue_of_holds {bindings : Bindings} {operand held : Operand} {value : Float}
    (hv : bindings.value operand = .ok value) (h : Workspace.Holds ⟨[operand], bindings⟩ held) :
    bindings.HasValue held := by
  rcases h with hm | hv'
  · rw [List.mem_singleton.1 hm]
    exact ⟨value, hv⟩
  · exact hv'

/-- A variable that is named has a slot with a value at the end. -/
theorem exists_hasValue {registry : Registry} {store : Store} {tokens : List Token} {value : Float}
    {bindings : Bindings} (ht : registry.IsThorough)
    (h : runAll registry store tokens = .ok (value, bindings)) {name : String}
    (hn : name ∈ variableNames tokens) :
    ∃ id : VarId, bindings.names[id.index]? = some name ∧ bindings.HasValue (.var id) := by
  have hstart : Reaches registry store tokens ⟨.start, 0, tokens⟩ := .refl
  obtain ⟨last, operand, hpath, hrest, hw, hv⟩ := hstart.exists_path h
  rcases Reaches.exists_holds ht (hstart.trans hpath) hn with hm | ⟨id, hid, ho⟩
  · rw [hrest] at hm
    cases hm
  · rw [hw] at hid ho
    exact ⟨id, hid, Workspace.hasValue_of_holds hv ho⟩

/-- The slot of a name that has a value is written back with it. -/
theorem Bindings.exists_mem_toList {bindings : Bindings} {name : String} {id : VarId}
    (hn : bindings.names[id.index]? = some name) (hv : bindings.HasValue (.var id)) :
    ∃ value, (name, some value) ∈ bindings.toList := by
  rw [names, List.getElem?_map] at hn
  obtain ⟨slot, hs, rfl⟩ := Option.map_eq_some_iff.1 hn
  rw [hasValue_var_iff, read?, hs, Option.bind_some] at hv
  obtain ⟨value, hv⟩ := Option.isSome_iff_exists.1 hv
  exact ⟨value, List.mem_map.2 ⟨slot, List.mem_of_getElem? hs, by rw [hv]⟩⟩

/-- Over operations that are bundled, described by a rule, or read or assign every operand that they
are handed, an evaluation with a value stores every variable that its tokens name. Each operand that
has ever waited has a value in the end, and if all operations are local, so has every variable of the
evaluation. -/
theorem stored_of_evaluateTokens {registry : Registry}
    (ho : ∀ name kind op, registry.find? name kind = some op → Library.Stock op ∨ op.IsThorough)
    {store : Store} {tokens : List Token} {value : Float}
    (h : (evaluateTokens registry store tokens).result = .ok value) :
    (∀ token ∈ tokens, token.kind = .var →
      (evaluateTokens registry store tokens).store.contains token.text = true) ∧
    ∃ bindings, runAll registry store tokens = .ok (value, bindings) ∧
      (∀ m, Reaches registry store tokens m → ∀ operand ∈ m.run.workspace.operands,
        bindings.HasValue operand) ∧
      (registry.IsLocal → ∀ slot ∈ bindings.slots, slot.value.isSome = true) := by
  have ht : registry.IsThorough := fun name kind op hf => (ho name kind op hf).elim (·.isThorough) id
  obtain ⟨bindings, hr⟩ := exists_runAll h
  refine ⟨fun token hm hk => ?_, bindings, hr, fun m hm operand hw => ?_, fun hl slot hslot => ?_⟩
  · have hname : token.text ∈ variableNames tokens := mem_variableNames.2 (hk ▸ hm)
    obtain ⟨id, hid, hv⟩ := exists_hasValue ht hr hname
    rw [evaluateTokens_of_ok hr]
    exact Store.contains_insertMany (.inr (Bindings.exists_mem_toList hid hv))
  · obtain ⟨last, result, hpath, -, hlast, hv⟩ := hm.exists_path hr
    have hheld := (hm.advances ht hpath).holds operand hw
    rw [hlast] at hheld
    exact Workspace.hasValue_of_holds hv hheld
  · obtain ⟨operand, previous, index, hreach, -⟩ := exists_reaches hr
    have hc := hreach.confined hl
    obtain ⟨i, hi⟩ := List.mem_iff_getElem?.1 hslot
    have hname : bindings.names[i]? = some slot.name := by
      rw [Bindings.names, List.getElem?_map, hi, Option.map_some]
    obtain ⟨id, hid, hvalue⟩ := exists_hasValue ht hr (hc.names (List.mem_of_getElem? hname))
    -- The slot is the only one of its name.
    obtain rfl : id.index = i :=
      (List.getElem?_inj (List.getElem?_eq_some_iff.1 hid).1 hc.nodup).1 (hid.trans hname.symm)
    rwa [Bindings.hasValue_var_iff, Bindings.read?, hi] at hvalue

/-- In `(x) = y = 2` a variable is handed on by a bracket and then assigned, and so is the other one. -/
theorem stored_of_evaluateTokens_sample :
    let store := (evaluateTokens Library.registry ∅ [⟨.bracket, "("⟩, ⟨.var, "x"⟩, ⟨.bracket, ")"⟩,
      ⟨.operator, "="⟩, ⟨.var, "y"⟩, ⟨.operator, "="⟩, ⟨.literal, "2"⟩]).store
    store.contains "x" = true ∧ store.contains "y" = true := by
  have hstock : ∀ name kind op, Library.registry.find? name kind = some op →
      Library.Stock op ∨ op.IsThorough := by
    intro name kind op hf
    rw [Library.find?_registry] at hf
    exact .inl (.bundle (List.mem_reverse.1 (List.mem_of_find?_eq_some hf)))
  have hvalue : (evaluateTokens Library.registry ∅ [⟨.bracket, "("⟩, ⟨.var, "x"⟩, ⟨.bracket, ")"⟩,
      ⟨.operator, "="⟩, ⟨.var, "y"⟩, ⟨.operator, "="⟩, ⟨.literal, "2"⟩]).result = .ok 2.0 := by
    decide +kernel
  simpa using (stored_of_evaluateTokens hstock hvalue).1

end Abacus
