import Abacus.Proofs.Evaluation.Moment
import Abacus.Proofs.Library.Registered
import Abacus.Proofs.Operation.Local
import Abacus.Proofs.Variables.Values

/-!
# What an evaluation reads and writes

An evaluation looks at the store only for the variables that its tokens name, and writes back only
those (`evaluateTokens_store`). A run never asks for another name (`runTokens_congr`). If all
operations are local, it also has no slot for another name, and no two slots for one name
(`Moment.Confined`), so that each of its variables is stored with the value that it has at the end
(`Store.get?_commit`).
-/

namespace Abacus

/-- The names of the variables among some tokens. -/
def variableNames (tokens : List Token) : List String :=
  (tokens.filter fun token => token.kind = .var).map Token.text

theorem mem_variableNames {tokens : List Token} {name : String} :
    name ∈ variableNames tokens ↔ ⟨.var, name⟩ ∈ tokens := by
  simp only [variableNames, List.mem_map, List.mem_filter, decide_eq_true_eq]
  constructor
  · rintro ⟨⟨kind, text⟩, ⟨hm, rfl⟩, rfl⟩
    exact hm
  · intro h
    exact ⟨⟨.var, name⟩, ⟨h, rfl⟩, rfl⟩

/-! ## Reading -/

section Reading

variable {registry : Registry} {s t : Store}

theorem Run.step_congr_store {token : Token}
    (h : token.kind = .var → s.get? token.text = t.get? token.text)
    (run : Run) (index : Nat) (next : Option Token) :
    run.step registry s index token next = run.step registry t index token next := by
  obtain ⟨kind, text⟩ := token
  cases kind with
  | var =>
    have hr : run.readVariable s text = run.readVariable t text := by
      simp only [readVariable, Bindings.resolve, h rfl]
    simp only [step, hr]
  | _ => rfl

/-- Runs from stores that agree on the variables of the tokens are the same. -/
theorem runTokens_congr {tokens : List Token}
    (h : ∀ name ∈ variableNames tokens, s.get? name = t.get? name) (run : Run) (index : Nat) :
    runTokens registry s run index tokens = runTokens registry t run index tokens := by
  induction tokens generalizing run index with
  | nil => rfl
  | cons token tokens ih =>
    have hstep : run.step registry s index token tokens.head? =
        run.step registry t index token tokens.head? :=
      Run.step_congr_store (fun hk =>
        h token.text (mem_variableNames.2 (by rw [← hk]; exact List.mem_cons_self))) run index _
    rw [runTokens_cons, runTokens_cons, hstep]
    refine bind_congr fun run => ih (fun name hm => h name ?_) run _
    exact mem_variableNames.2 (List.mem_cons_of_mem _ (mem_variableNames.1 hm))

theorem runAll_congr {tokens : List Token}
    (h : ∀ name ∈ variableNames tokens, s.get? name = t.get? name) :
    runAll registry s tokens = runAll registry t tokens := by
  rw [runAll, runAll, runTokens_congr h]

end Reading

/-! ## Slots -/

theorem variableNames_subset_of_cons (token : Token) (tokens : List Token) :
    variableNames tokens ⊆ variableNames (token :: tokens) := fun _ h =>
  mem_variableNames.2 (List.mem_cons_of_mem _ (mem_variableNames.1 h))

namespace Moment

/-- What holds of the variables at every moment: their names are among the known ones, without
repetition, as are the names of the variables to come, and whatever waits is local. -/
structure Confined (known : List String) (m : Moment) : Prop where
  names : m.run.workspace.bindings.names ⊆ known
  nodup : m.run.workspace.bindings.names.Nodup
  rest : variableNames m.rest ⊆ known
  frames : ∀ frame ∈ m.run.frames, frame.operation.IsLocal

variable {registry : Registry} {store : Store} {m m' : Moment} {known : List String}

/-- Moments with the same names of variables are confined together. -/
theorem Confined.of_names_eq (hc : m.Confined known)
    (hn : m'.run.workspace.bindings.names = m.run.workspace.bindings.names)
    (hr : variableNames m'.rest ⊆ known) (hf : ∀ frame ∈ m'.run.frames, frame.operation.IsLocal) :
    m'.Confined known :=
  ⟨hn ▸ hc.names, hn ▸ hc.nodup, hr, hf⟩

theorem Confined.start (tokens : List Token) :
    Confined (variableNames tokens) ⟨.start, 0, tokens⟩ :=
  ⟨List.nil_subset _, List.nodup_nil, List.Subset.refl _, fun _ h => absurd h List.not_mem_nil⟩

theorem names_of_fire {frame : Frame} {w w' : Workspace} (hl : frame.operation.IsLocal)
    (h : frame.fire w = .ok w') : w'.bindings.names = w.bindings.names :=
  (Workspace.agreeOutside_of_run hl (Frame.fire_eq_ok h).1).names

theorem Confined.next (hl : registry.IsLocal) (hc : m.Confined known)
    (hn : Next registry store m m') : m'.Confined known := by
  have hframes := hn.forall_frames hl hc.frames
  cases hn with
  | @fire frame frames w w' previous index rest hr hf =>
    have hlocal := hc.frames frame List.mem_cons_self
    exact hc.of_names_eq (names_of_fire hlocal hf) hc.rest hframes
  | @read run run' index token rest hs hr =>
    have hrest : variableNames rest ⊆ known :=
      List.Subset.trans (variableNames_subset_of_cons token rest) hc.rest
    cases Run.step_eq_ok hs hr with
    | separator | literal | callOpen | function | prefixOp | binary | openBracket =>
      exact hc.of_names_eq rfl hrest hframes
    | callClose _ hf _ _ hw | closeBracket _ hf _ _ _ hw =>
      have hlocal := hc.frames _ (hf ▸ List.mem_cons_self)
      exact hc.of_names_eq (names_of_fire hlocal hw) hrest hframes
    | postfixOp _ _ ho hw =>
      exact hc.of_names_eq (Workspace.agreeOutside_of_run (hl _ _ _ ho) hw).names hrest hframes
    | @var name hp =>
      have hnames : (run.readVariable store name).workspace.bindings.names =
          if name ∈ run.workspace.bindings.names then run.workspace.bindings.names
          else run.workspace.bindings.names ++ [name] := Bindings.names_resolve
      by_cases hm : name ∈ run.workspace.bindings.names
      · exact hc.of_names_eq (hnames.trans (if_pos hm)) hrest hframes
      · rw [if_neg hm] at hnames
        have hk : name ∈ known := hc.rest (mem_variableNames.2 List.mem_cons_self)
        refine ⟨?_, ?_, hrest, hframes⟩
        · rw [hnames]
          exact List.append_subset.2 ⟨hc.names, by simpa using hk⟩
        · rw [hnames]
          refine List.nodup_append.2 ⟨hc.nodup, List.pairwise_singleton _ name, fun a ha b hb => ?_⟩
          rw [List.mem_singleton.1 hb]
          rintro rfl
          exact hm ha

end Moment

theorem Reaches.confined {registry : Registry} {store : Store} {tokens : List Token} {m : Moment}
    (hl : registry.IsLocal) (h : Reaches registry store tokens m) :
    m.Confined (variableNames tokens) := by
  induction h with
  | refl => exact .start tokens
  | tail _ hn ih => exact ih.next hl hn

/-! ## The outcome -/

section Outcome

variable {registry : Registry} {s t : Store} {tokens : List Token}

/-- From stores that agree on the variables of the tokens, an evaluation comes to the same value or
error, and to stores that agree on them. -/
theorem evaluateTokens_congr (h : ∀ name ∈ variableNames tokens, s.get? name = t.get? name) :
    (evaluateTokens registry s tokens).result = (evaluateTokens registry t tokens).result ∧
      ∀ name ∈ variableNames tokens,
        (evaluateTokens registry s tokens).store.get? name =
          (evaluateTokens registry t tokens).store.get? name := by
  have hrun : runAll registry s tokens = runAll registry t tokens := runAll_congr h
  cases ht : runAll registry t tokens with
  | error error =>
    rw [evaluateTokens_of_error (hrun.trans ht), evaluateTokens_of_error ht]
    exact ⟨rfl, h⟩
  | ok outcome =>
    rw [evaluateTokens_of_ok (hrun.trans ht), evaluateTokens_of_ok ht]
    exact ⟨rfl, fun name hname => Store.get?_insertMany_congr _ (h name hname)⟩

/-- An evaluation with a value stores the variables of its tokens that have got one, and no others. -/
theorem get?_store_of_ok (hl : registry.IsLocal) {value : Float}
    (h : (evaluateTokens registry s tokens).result = .ok value) :
    ∃ bindings, runAll registry s tokens = .ok (value, bindings) ∧
      (∀ name ∉ variableNames tokens,
        (evaluateTokens registry s tokens).store.get? name = s.get? name) ∧
      ∀ name ∈ variableNames tokens, (evaluateTokens registry s tokens).store.get? name =
        (bindings.valueOf? name).or (s.get? name) := by
  obtain ⟨bindings, hr⟩ := exists_runAll h
  obtain ⟨operand, previous, index, hreach, _⟩ := exists_reaches hr
  have hc := hreach.confined hl
  rw [evaluateTokens_of_ok hr]
  refine ⟨bindings, hr, fun name hname => ?_, fun name _ => Store.get?_commit hc.nodup⟩
  rw [Store.get?_commit hc.nodup, Bindings.valueOf?_of_notMem fun hm => hname (hc.names hm),
    Option.none_or]

end Outcome

/-- What an evaluation has to do with the store, over local operations. Stores that agree on the
variables of the tokens lead to the same value or error and to stores that agree on them. With a
value, the variables of the tokens that have got one are stored with it, and all other entries stay.
Without a value the store is as it was. -/
theorem evaluateTokens_store {registry : Registry} (hl : registry.IsLocal) (tokens : List Token) :
    (∀ s t : Store, (∀ name ∈ variableNames tokens, s.get? name = t.get? name) →
      (evaluateTokens registry s tokens).result = (evaluateTokens registry t tokens).result ∧
        ∀ name ∈ variableNames tokens,
          (evaluateTokens registry s tokens).store.get? name =
            (evaluateTokens registry t tokens).store.get? name) ∧
    (∀ (s : Store) (value : Float), (evaluateTokens registry s tokens).result = .ok value →
      ∃ bindings, runAll registry s tokens = .ok (value, bindings) ∧
        (∀ name ∉ variableNames tokens,
          (evaluateTokens registry s tokens).store.get? name = s.get? name) ∧
        ∀ name ∈ variableNames tokens, (evaluateTokens registry s tokens).store.get? name =
          (bindings.valueOf? name).or (s.get? name)) ∧
    ∀ (s : Store) (error : EvalError), (evaluateTokens registry s tokens).result = .error error →
      (evaluateTokens registry s tokens).store = s :=
  ⟨fun _ _ => evaluateTokens_congr, fun _ _ => get?_store_of_ok hl, fun _ _ => store_of_error⟩

/-- A stored variable that the tokens of `x = y++` do not name is of no account to their value. -/
theorem evaluateTokens_store_sample :
    (evaluateTokens Library.registry ((∅ : Store).insert "y" 1.0)
        [⟨.var, "x"⟩, ⟨.operator, "="⟩, ⟨.var, "y"⟩, ⟨.operator, "++"⟩]).result =
      (evaluateTokens Library.registry (((∅ : Store).insert "y" 1.0).insert "z" 2.0)
        [⟨.var, "x"⟩, ⟨.operator, "="⟩, ⟨.var, "y"⟩, ⟨.operator, "++"⟩]).result := by
  refine ((evaluateTokens_store Library.isLocal_registry _).1 _ _ fun name hname => ?_).1
  have hz : "z" ≠ name := by
    rintro rfl
    revert hname
    decide
  have hother : ∀ store : Store, (store.insert "z" 2.0).get? name = store.get? name := fun store => by
    rw [Store.get?_insert, if_neg hz]
  exact (hother _).symm

end Abacus
