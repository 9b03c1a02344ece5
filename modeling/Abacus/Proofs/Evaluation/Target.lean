import Mathlib.Control.Monad.Basic
import Abacus.Proofs.Evaluation.Agreement
import Abacus.Proofs.Evaluation.Failure
import Abacus.Proofs.Operation.Target
import Abacus.Proofs.Variables.Lookup

/-!
# Variables that an evaluation leaves alone

Over the bundled operations only assignment and steps change a variable (`Moment.Targets`). All other
variables are seen as they are stored at every moment (`Reaches.lookup_eq`), so that they are stored
as they were, although every variable with a value is written back. Where no assignment and no step is
among the tokens, all of the store is as it was (`evaluate_changes_targets`).

* `Moment.Next.lookup_eq`: a step changes what is seen of the variables that it targets;
* `Reaches.operator_mem`, `Moment.Executes.operator_mem`: an operator that waits or is applied is
  among the tokens.
-/

namespace Abacus

/-- The next step applies an assignment or a step to the variable of a name: the name is that of the
left operand of the assignment, or of the operand of the step. -/
inductive Moment.Targets (registry : Registry) (m : Moment) (name : String) : Prop where
  | mk {op : Operation} {enclosing : List Frame} {n : Nat} {id : VarId}
    (he : m.Executes registry op enclosing n) (ho : op.name ∈ Library.writers)
    (hl : (m.run.workspace.operands.take n).getLast? = some (.var id))
    (hn : m.run.workspace.bindings.names[id.index]? = some name) : Targets registry m name

namespace Moment

variable {registry : Registry} {store : Store} {m m' : Moment} {name : String}

/-- A step over the bundled operations changes what is seen of the variables that it targets, and of no
others. -/
theorem Next.lookup_eq (hf : ∀ frame ∈ m.run.frames, frame.operation ∈ Library.bundle)
    (ht : ¬m.Targets Library.registry name) (h : Next Library.registry store m m') :
    m'.run.workspace.bindings.lookup store name = m.run.workspace.bindings.lookup store name := by
  rcases h.runs with hsame | ⟨met, -, hmet⟩ | ⟨op, enclosing, hexecutes, hrun, hop⟩
  · rw [hsame]
  · rw [hmet, Bindings.lookup_resolve]
  · have hmem : op ∈ Library.bundle := by
      rcases hop with ⟨frame, hframe, rfl⟩ | ⟨_, _, hfind⟩
      · exact hf frame hframe
      · exact Library.mem_bundle_of_find? hfind
    refine (Workspace.agreeOutside_of_writesWithin (Library.keepsToTargets_bundle op hmem)
      hrun).lookup_eq fun id hid hname => ?_
    unfold Library.targets at hid
    split at hid
    · rename_i hwriter
      exact ht (.mk hexecutes hwriter (Option.mem_toList.1 hid) hname)
    · cases hid

end Moment

/-! ## Operators among the tokens -/

section Operators

variable {registry : Registry} {store : Store} {tokens : List Token} {m : Moment}

/-- An operator that waits is among the tokens. -/
theorem Reaches.operator_mem (hreach : registry.Reachable) (h : Reaches registry store tokens m) :
    ∀ frame ∈ m.run.frames, frame.operation.kind.isOperator = true →
      ⟨.operator, frame.operation.name⟩ ∈ tokens := by
  induction h with
  | refl => exact nofun
  | @tail m m' hm hn ih =>
    have hrest : m.rest ⊆ tokens := (Reaches.rest_suffix hm).subset
    cases hn with
    | fire => exact (List.forall_mem_cons.1 ih).2
    | read hs hr =>
      cases Run.step_eq_ok hs hr with
      | separator | literal | var | callOpen | postfixOp => exact ih
      | function _ _ _ ho =>
        refine List.forall_mem_cons.2 ⟨fun hk => ?_, ih⟩
        simp [(hreach.find?_eq_some ho).2.1, Kind.isOperator] at hk
      | openBracket _ _ _ hk =>
        refine List.forall_mem_cons.2 ⟨fun hop => ?_, ih⟩
        simp [hk, Kind.isOperator] at hop
      | prefixOp _ ho | binary _ ho =>
        obtain ⟨rfl, -⟩ := hreach.find?_eq_some ho
        exact List.forall_mem_cons.2 ⟨fun _ => hrest List.mem_cons_self, ih⟩
      | callClose _ he | closeBracket _ he => exact (List.forall_mem_cons.1 (he ▸ ih)).2

/-- An operator that is applied is among the tokens. -/
theorem Moment.Executes.operator_mem (hreach : registry.Reachable)
    (h : Reaches registry store tokens m) {op : Operation} {enclosing : List Frame} {n : Nat}
    (he : m.Executes registry op enclosing n) (hk : op.kind.isOperator = true) :
    ⟨.operator, op.name⟩ ∈ tokens := by
  have hpending := h.operator_mem hreach
  cases he with
  | pending | close => exact hpending _ List.mem_cons_self hk
  | postfixOp _ _ ho =>
    obtain ⟨rfl, -⟩ := hreach.find?_eq_some ho
    exact h.rest_suffix.subset List.mem_cons_self

end Operators

/-! ## Evaluations over the bundled operations -/

section Bundle

variable {store : Store} {tokens : List Token} {m : Moment} {name : String}

/-- Without assignments and steps among the tokens, none is ever applied. -/
theorem Reaches.not_targets (hw : ∀ name ∈ Library.writers, ⟨.operator, name⟩ ∉ tokens)
    (h : Reaches Library.registry store tokens m) : ¬m.Targets Library.registry name := by
  rintro @⟨op, enclosing, n, id, he, ho, -, -⟩
  have hmem : ∀ frame ∈ m.run.frames, frame.operation ∈ Library.bundle :=
    h.forall_frames fun _ _ _ => Library.mem_bundle_of_find?
  have hbundle : op ∈ Library.bundle := by
    cases he with
    | pending | close => exact hmem _ List.mem_cons_self
    | postfixOp _ _ hfind => exact Library.mem_bundle_of_find? hfind
  exact hw _ ho (he.operator_mem Library.reachable_registry h
    (Library.isOperator_of_mem_writers op hbundle ho))

/-- A variable that has never been assigned to or stepped is seen as it is stored. -/
theorem Reaches.lookup_eq
    (ht : ∀ m, Reaches Library.registry store tokens m → ¬m.Targets Library.registry name)
    (h : Reaches Library.registry store tokens m) :
    m.run.workspace.bindings.lookup store name = store.get? name := by
  induction h with
  | refl => rfl
  | @tail m m' hm hn ih =>
    have hmem : ∀ frame ∈ m.run.frames, frame.operation ∈ Library.bundle :=
      Reaches.forall_frames (fun _ _ _ => Library.mem_bundle_of_find?) hm
    rw [hn.lookup_eq hmem (ht m hm), ih]

/-- A variable that is never assigned to or stepped keeps its entry, with or without a value. -/
theorem get?_store_of_not_targets
    (ht : ∀ m, Reaches Library.registry store tokens m → ¬m.Targets Library.registry name) :
    (evaluateTokens Library.registry store tokens).store.get? name = store.get? name := by
  cases hr : runAll Library.registry store tokens with
  | error error => rw [evaluateTokens_of_error hr]
  | ok outcome =>
    obtain ⟨value, bindings⟩ := outcome
    obtain ⟨operand, previous, index, hreach, -⟩ := exists_reaches hr
    have hnames : bindings.names.Nodup := (Reaches.confined Library.isLocal_registry hreach).nodup
    have hlookup : bindings.lookup store name = store.get? name := Reaches.lookup_eq ht hreach
    rw [evaluateTokens_of_ok hr, Store.get?_commit_eq_lookup hnames, hlookup, Option.or_self]

/-- Over the bundled operations, only assignments and steps change variables. If none of them is among
the tokens of a text, its evaluation leaves the store as it was, whether or not it has a value, and
another evaluation comes to the same. In any evaluation, a variable keeps its entry unless an assignment
or a step is applied to it. -/
theorem evaluate_changes_targets (store : Store) (text : String) :
    ((∀ tokens, tokenize Library.registry text = .ok tokens →
        ∀ name ∈ Library.writers, ⟨.operator, name⟩ ∉ tokens) →
      (evaluate Library.registry store text).store = store ∧
        (evaluate Library.registry (evaluate Library.registry store text).store text).result =
          (evaluate Library.registry store text).result) ∧
    ∀ name : String, (∀ tokens m, tokenize Library.registry text = .ok tokens →
        Reaches Library.registry store tokens m → ¬m.Targets Library.registry name) →
      (evaluate Library.registry store text).store.get? name = store.get? name := by
  refine ⟨fun hw => ?_, fun name ht => ?_⟩
  · have hstore : (evaluate Library.registry store text).store = store := by
      cases htokens : tokenize Library.registry text with
      | error error => rw [evaluate_of_lex_error htokens]
      | ok tokens =>
        rw [evaluate_of_tokenize htokens]
        exact Store.ext_get? fun name =>
          get?_store_of_not_targets fun m hm => hm.not_targets (hw tokens htokens)
    exact ⟨hstore, by rw [hstore]⟩
  · cases htokens : tokenize Library.registry text with
    | error error => rw [evaluate_of_lex_error htokens]
    | ok tokens =>
      rw [evaluate_of_tokenize htokens]
      exact get?_store_of_not_targets fun m hm => ht tokens m htokens hm

/-- The product `x*2` has a value, is the same again, and leaves `x` as it was. So does `y = x`, whose only
writer is applied to `y`. -/
theorem evaluate_changes_targets_sample :
    let store := (∅ : Store).insert "x" 3
    ((evaluate Library.registry store "x*2").result = .ok 6 ∧
      (evaluate Library.registry store "x*2").store = store ∧
      (evaluate Library.registry (evaluate Library.registry store "x*2").store "x*2").result =
        .ok 6) ∧
      (evaluate Library.registry store "y = x").store.get? "y" = some 3 ∧
      (evaluate Library.registry store "y = x").store.get? "x" = store.get? "x" := by
  intro store
  have hproduct : tokenize Library.registry "x*2" =
      .ok [⟨.var, "x"⟩, ⟨.operator, "*"⟩, ⟨.literal, "2"⟩] := by decide +kernel
  have hvalue : (evaluate Library.registry store "x*2").result = .ok 6 := by decide +kernel
  have hwriters : ∀ tokens, tokenize Library.registry "x*2" = .ok tokens →
      ∀ name ∈ Library.writers, ⟨.operator, name⟩ ∉ tokens := by
    intro tokens ht
    obtain rfl := Except.ok.inj (hproduct.symm.trans ht)
    decide
  obtain ⟨hstore, hagain⟩ := (evaluate_changes_targets store "x*2").1 hwriters
  refine ⟨⟨hvalue, hstore, hagain.trans hvalue⟩, by decide +kernel,
    (evaluate_changes_targets store "y = x").2 "x" fun tokens m ht hm => ?_⟩
  have hassignment : tokenize Library.registry "y = x" =
      .ok [⟨.var, "y"⟩, ⟨.operator, "="⟩, ⟨.var, "x"⟩] := by decide +kernel
  obtain rfl := Except.ok.inj (hassignment.symm.trans ht)
  have hfind := (Library.find?_registry "=" .binary).trans rfl
  have h₁ : Moment.Next Library.registry store
      ⟨.start, 0, [⟨.var, "y"⟩, ⟨.operator, "="⟩, ⟨.var, "x"⟩]⟩
      ⟨⟨[], ⟨[.var ⟨0⟩], ⟨[⟨"y", none⟩]⟩⟩, .var⟩, 1, [⟨.operator, "="⟩, ⟨.var, "x"⟩]⟩ :=
    .read (by simp [Run.start]) (Run.step_var rfl)
  have h₂ : Moment.Next Library.registry store
      ⟨⟨[], ⟨[.var ⟨0⟩], ⟨[⟨"y", none⟩]⟩⟩, .var⟩, 1, [⟨.operator, "="⟩, ⟨.var, "x"⟩]⟩
      ⟨⟨[⟨Library.assignment, 1⟩], ⟨[.var ⟨0⟩], ⟨[⟨"y", none⟩]⟩⟩, .binary⟩, 2, [⟨.var, "x"⟩]⟩ :=
    .read (by simp) (Run.step_binary rfl hfind)
  have h₃ : Moment.Next Library.registry store
      ⟨⟨[⟨Library.assignment, 1⟩], ⟨[.var ⟨0⟩], ⟨[⟨"y", none⟩]⟩⟩, .binary⟩, 2, [⟨.var, "x"⟩]⟩
      ⟨⟨[⟨Library.assignment, 1⟩], ⟨[.var ⟨1⟩, .var ⟨0⟩], ⟨[⟨"y", none⟩, ⟨"x", some 3⟩]⟩⟩, .var⟩,
        3, []⟩ :=
    .read (by simp [releases]) (Run.step_var rfl)
  have h₄ : Moment.Next Library.registry store
      ⟨⟨[⟨Library.assignment, 1⟩], ⟨[.var ⟨1⟩, .var ⟨0⟩], ⟨[⟨"y", none⟩, ⟨"x", some 3⟩]⟩⟩, .var⟩,
        3, []⟩
      ⟨⟨[], ⟨[.literal 3], ⟨[⟨"y", some 3⟩, ⟨"x", some 3⟩]⟩⟩, .var⟩, 3, []⟩ :=
    .fire rfl rfl
  rintro ⟨hexecutes, -, hl, hn⟩
  -- Only when the assignment is ready, something is applied.
  rcases h₁.eq_or_reaches hm with rfl | hm
  · cases hexecutes
  rcases h₂.eq_or_reaches hm with rfl | hm
  · cases hexecutes with
    | postfixOp _ hb _ => cases hb.symm.trans hfind
  rcases h₃.eq_or_reaches hm with rfl | hm
  · cases hexecutes with
    | pending hr => cases hr
    | close hk => cases hk
  rcases h₄.eq_or_reaches hm with rfl | hm
  · cases hexecutes with
    | pending =>
      obtain rfl := Operand.var.inj (Option.some.inj hl)
      exact absurd hn (by decide)
  rcases Relation.ReflTransGen.cases_head hm with rfl | ⟨_, hnext, -⟩
  · cases hexecutes
  · cases hnext

end Bundle

end Abacus
