import Abacus.Proofs.Evaluation.Execution
import Abacus.Proofs.Operation.Quiet

/-!
# Moments that fail

An evaluation fails with an error if and only if it reaches a moment whose next step fails with it
(`runAll_eq_error_iff`). So where an error comes from can be read off the steps there are: a pending
operation that cannot go, a token that cannot be read, or an end that comes too early.

An error about a spelling has four causes (`Moment.Fails.rejects`): a numeral that cannot be read, a
function that is not registered, an operator that does not fit, or an operation whose own action has
raised it.

* `Moment.exists_settled`: what has to go before the next token goes, or fails to;
* `Workspace.raises_of_run`: when an operation is applied, an error about a spelling is that of its
  action.
-/

namespace Abacus

variable {registry : Registry} {store : Store}

namespace Moment

/-- The next step fails with an error: a pending operation cannot go, a token cannot be read, or the
run cannot end. -/
inductive Fails (registry : Registry) (store : Store) : Moment → EvalError → Prop where
  | fire {frame : Frame} {frames : List Frame} {w : Workspace} {previous : Reading} {index : Nat}
    {rest : List Token} {error : EvalError}
    (hr : releases registry previous rest.head? frame.operation = true)
    (hf : frame.fire w = .error error) :
    Fails registry store ⟨⟨frame :: frames, w, previous⟩, index, rest⟩ error
  | read {run : Run} {index : Nat} {token : Token} {rest : List Token} {error : EvalError}
    (hs : ∀ frame ∈ run.frames.head?,
      releases registry run.previous (some token) frame.operation = false)
    (hr : run.step registry store index token rest.head? = .error error) :
    Fails registry store ⟨run, index, token :: rest⟩ error
  | finish {run : Run} {index : Nat} {error : EvalError}
    (hs : ∀ frame ∈ run.frames.head?, releases registry run.previous none frame.operation = false)
    (hf : run.finish = .error error) : Fails registry store ⟨run, index, []⟩ error

variable {m : Moment} {error : EvalError}

/-- If the next step fails, so does the rest of the evaluation. -/
theorem Fails.result_eq (h : m.Fails registry store error) :
    m.result registry store = .error error := by
  cases h with
  | fire hr hf => rw [result_of_releases hr, hf, error_bind]
  | read hs hr => simp only [result, runTokens_cons, hr, error_bind]
  | finish hs hf => simp only [result, runTokens_nil, ok_bind, hf]

/-- If the rest of an evaluation fails, then one of the operations fails that have to go before the
next token, or all of them go and the rest still fails. -/
theorem exists_settled (h : m.result registry store = .error error) :
    ∃ m', Relation.ReflTransGen (Next registry store) m m' ∧ m'.rest = m.rest ∧
      m'.result registry store = .error error ∧ (m'.Fails registry store error ∨
        ∀ frame ∈ m'.run.frames.head?,
          releases registry m'.run.previous m'.rest.head? frame.operation = false) := by
  obtain ⟨⟨frames, w, previous⟩, index, rest⟩ := m
  induction frames generalizing w with
  | nil => exact ⟨_, .refl, rfl, h, .inr nofun⟩
  | cons frame frames ih =>
    cases hr : releases registry previous rest.head? frame.operation with
    | false => exact ⟨_, .refl, rfl, h, .inr (by simpa using hr)⟩
    | true =>
      rw [result_of_releases hr] at h
      rcases bind_eq_error.1 h with hf | ⟨w', hf, hw⟩
      · exact ⟨_, .refl, rfl, h ▸ result_of_releases hr, .inl (.fire hr hf)⟩
      · obtain ⟨m', hpath, hm'⟩ := ih w' hw
        exact ⟨m', .head (.fire hr hf) hpath, hm'⟩

/-- If the rest of an evaluation fails, it reaches a moment whose next step fails. -/
theorem exists_fails (h : m.result registry store = .error error) :
    ∃ m', Relation.ReflTransGen (Next registry store) m m' ∧ m'.Fails registry store error := by
  obtain ⟨run, index, rest⟩ := m
  induction rest generalizing run index with
  | nil =>
    obtain ⟨⟨run', index', _⟩, hpath, rfl, h, hfails | hs⟩ := exists_settled h
    · exact ⟨_, hpath, hfails⟩
    · exact ⟨_, hpath, .finish hs h⟩
  | cons token rest ih =>
    obtain ⟨⟨run', index', _⟩, hpath, rfl, h, hfails | hs⟩ := exists_settled h
    · exact ⟨_, hpath, hfails⟩
    · simp only [result, runTokens_cons, bind_assoc] at h
      rcases bind_eq_error.1 h with hr | ⟨next, hr, h⟩
      · exact ⟨_, hpath, .read hs hr⟩
      · obtain ⟨m', hrest, hfails⟩ := ih next (index' + 1) h
        exact ⟨m', hpath.trans (.head (.read hs hr) hrest), hfails⟩

end Moment

/-- An evaluation fails with an error if and only if it reaches a moment whose next step fails with
it. -/
theorem runAll_eq_error_iff {tokens : List Token} {error : EvalError} :
    runAll registry store tokens = .error error ↔
      ∃ m, Reaches registry store tokens m ∧ m.Fails registry store error := by
  constructor
  · exact fun h => Moment.exists_fails h
  · rintro ⟨m, hreach, hfails⟩
    rw [← hreach.result_eq, hfails.result_eq]

/-- What is still to be read is an end of the tokens. -/
theorem Reaches.rest_suffix {tokens : List Token} {m : Moment} (h : Reaches registry store tokens m) :
    m.rest <:+ tokens := by
  induction h with
  | refl => exact List.suffix_rfl
  | tail _ hn ih =>
    cases hn with
    | fire => exact ih
    | read => exact (List.suffix_cons _ _).trans ih

/-! ## Errors of applying -/

namespace Workspace

variable {w : Workspace} {op : Operation} {error : EvalError}

theorem raises_of_settle {below : List Operand} {action : Effect Float} {bindings : Bindings}
    {w' : Workspace} (h : settle below action bindings = .error error w') : action.Raises error := by
  unfold settle at h
  split at h
  · cases h
  · rename_i after ha
    cases h
    exact ⟨bindings, after, ha⟩

/-- When an operation is applied, an error about a spelling is that of its action: too few operands and
arguments without a value have other errors. -/
theorem raises_of_run (hs : error.isSpelling = true) (h : w.run op = .error error) :
    op.Raises error := by
  obtain ⟨name, role⟩ := op
  obtain ⟨operands, bindings⟩ := w
  obtain ⟨w', happly⟩ :
      ∃ w', Operation.apply ⟨name, role⟩ ⟨operands, bindings⟩ = .error error w' := by
    unfold run at h
    split at h
    · cases h
    · rename_i w' ha
      exact ⟨w', Except.error.inj h ▸ ha⟩
  unfold Operation.apply at happly
  cases role with
  | binary priority associativity action => match operands, happly with
    | right :: left :: below, happly => exact ⟨left, right, raises_of_settle happly⟩
    | [], happly | [_], happly =>
      cases happly
      cases hs
  | prefixOp priority action => match operands, happly with
    | operand :: below, happly => exact ⟨operand, raises_of_settle happly⟩
    | [], happly =>
      cases happly
      cases hs
  | postfixOp action => match operands, happly with
    | operand :: below, happly => exact ⟨operand, raises_of_settle happly⟩
    | [], happly =>
      cases happly
      cases hs
  | function arity body =>
    dsimp only at happly
    split at happly
    · rcases bind_eq_error.1 (Effect.raises_ofExcept.1 (raises_of_settle happly)) with ha | ⟨_, _, hb⟩
      · obtain ⟨_, operand, _, -, -, ho⟩ := exists_first_of_mapM_eq_error ha
        obtain ⟨_, rfl⟩ := Bindings.value_eq_error ho
        cases hs
      · exact ⟨_, hb⟩
    · cases happly
      cases hs
  | openBracket transform => match transform, operands, happly with
    | some action, operand :: below, happly => exact ⟨operand, raises_of_settle happly⟩
    | some _, [], happly | none, [], happly =>
      cases happly
      cases hs
  | closeBracket opener => cases happly

end Workspace

/-- When a pending operation goes, an error about a spelling is that of applying it. -/
theorem Frame.run_of_fire_eq_error {frame : Frame} {w : Workspace} {error : EvalError}
    (hs : error.isSpelling = true) (h : frame.fire w = .error error) :
    w.run frame.operation = .error error := by
  simp only [fire] at h
  split at h
  · cases h
    cases hs
  · split at h
    · cases h
      cases hs
    · exact h

/-! ## Errors about a spelling -/

namespace Moment

/-- The next step applies an operation, and applying the operation fails with the error. -/
def Throws (registry : Registry) (m : Moment) (error : EvalError) : Prop :=
  ∃ op enclosing taken, m.Executes registry op enclosing taken ∧
    m.run.workspace.run op = .error error

/-- Why a step fails with an error about a spelling. -/
inductive Rejects (registry : Registry) : Moment → EvalError → Prop where
  | literal {run : Run} {index : Nat} {text : String} {rest : List Token}
    (hv : Number.read? text.toList = none) :
    Rejects registry ⟨run, index, ⟨.literal, text⟩ :: rest⟩ (.lex (.malformedLiteral index text))
  | function {run : Run} {index : Nat} {name : String} {rest : List Token}
    (ho : registry.find? name .function = none) :
    Rejects registry ⟨run, index, ⟨.function, name⟩ :: rest⟩ (.unknownOperator name)
  | operator {run : Run} {index : Nat} {name : String} {rest : List Token} :
    Rejects registry ⟨run, index, ⟨.operator, name⟩ :: rest⟩ (.unknownOperator name)
  | thrown {m : Moment} {error : EvalError} (h : m.Throws registry error) : Rejects registry m error

variable {run : Run} {index : Nat} {token : Token} {rest : List Token} {error : EvalError}

/-- A closing bracket that fails with an error about a spelling has it from the scope that it closes. -/
theorem throws_of_close {opener : Option String} (hk : token.kind = .bracket)
    (hc : token.closes registry run.previous = true)
    (hscope : ∀ frame ∈ run.frames.head?, frame.operation.isScope = true)
    (hs : error.isSpelling = true) (h : run.close token opener = .error error) :
    Throws registry ⟨run, index, token :: rest⟩ error := by
  obtain ⟨frames, w, previous⟩ := run
  rw [Run.close, Run.unwindScope_of_head hscope, ok_bind] at h
  cases frames with
  | nil =>
    cases h
    cases hs
  | cons frame frames =>
    have hthrows : ∀ reading : Reading,
        (frame.fire w >>= fun w => pure (Run.mk frames w reading)) = .error error →
        Throws registry ⟨⟨frame :: frames, w, previous⟩, index, token :: rest⟩ error := by
      intro reading h
      rcases bind_eq_error.1 h with h | ⟨_, _, h⟩
      · exact ⟨_, _, _, .close hk hc (hscope frame rfl), Frame.run_of_fire_eq_error hs h⟩
      · cases h
    dsimp only at h
    split at h
    · exact hthrows _ h
    · split at h
      · exact hthrows _ h
      · cases h
        cases hs

/-- Why a token is not read, with an error about a spelling, by a run in which nothing has to go
before it. -/
theorem rejects_of_step
    (hsettled : ∀ frame ∈ run.frames.head?,
      releases registry run.previous (some token) frame.operation = false)
    (hs : error.isSpelling = true)
    (h : run.step registry store index token rest.head? = .error error) :
    Rejects registry ⟨run, index, token :: rest⟩ error := by
  obtain ⟨kind, text⟩ := token
  unfold Run.step at h
  split at h
  · cases h
    cases hs
  rename_i hstart
  cases kind with
  | separator =>
    have hscope : ∀ frame ∈ run.frames.head?, frame.operation.isScope = true := fun frame hf => by
      simpa [releases, Token.startsOperand] using hsettled frame hf
    simp only [Run.separate, Run.unwindScope_of_head hscope, ok_bind] at h
    split at h
    · split at h <;> cases h
      cases hs
    · cases h
      cases hs
  | literal =>
    simp only [Run.readLiteral] at h
    split at h
    · cases h
    · rename_i hv
      cases h
      exact .literal hv
  | var => cases h
  | function =>
    simp only [Run.readFunction] at h
    split at h
    · split at h
      · cases h
      · rename_i ho
        cases h
        exact .function ho
    · cases h
      cases hs
  | bracket =>
    simp only [Run.readBracket] at h
    split at h
    · cases h
    · rename_i hc
      have hscope : Token.closes registry run.previous ⟨.bracket, text⟩ = true →
          ∀ frame ∈ run.frames.head?, frame.operation.isScope = true := fun ht frame hf => by
        simpa [releases, hstart, ht] using hsettled frame hf
      split at h
      · rename_i op ho
        split at h
        · cases h
        · rename_i hk
          have ht : Token.closes registry run.previous ⟨.bracket, text⟩ = true := by
            simp [Token.closes, hc, ho, hk]
          exact .thrown (throws_of_close rfl ht (hscope ht) hs h)
      · rename_i ho
        split at h
        · cases h
          cases hs
        · rename_i hsym
          have ht : Token.closes registry run.previous ⟨.bracket, text⟩ = true := by
            simp [Token.closes, ho, hsym]
          exact .thrown (throws_of_close rfl ht (hscope ht) hs h)
  | operator =>
    simp only [Run.readOperator] at h
    split at h
    · split at h <;> cases h
      exact .operator
    · split at h
      · rename_i hp
        simp only [Run.readInfixOrPostfix] at h
        split at h
        · rename_i op ho
          have hready : ∀ frame ∈ run.frames.head?, frame.operation.firesBefore op = false :=
            fun frame hf => by
              simpa [releases, Token.startsOperand, hp, ho] using hsettled frame hf
          rw [show run.unwind (fun pending => pending.firesBefore op) = .ok run from
            Run.unwind_of_head hready, ok_bind] at h
          cases h
        · rename_i hb
          split at h
          · rename_i op ho
            rcases bind_eq_error.1 h with h | ⟨_, _, h⟩
            · exact .thrown ⟨_, _, _, .postfixOp hp hb ho, h⟩
            · cases h
          · cases h
            exact .operator
      · cases h
        exact .operator

/-- Why a step fails with an error about a spelling. -/
theorem Fails.rejects {m : Moment} (hs : error.isSpelling = true) (h : m.Fails registry store error) :
    m.Rejects registry error := by
  cases h with
  | fire hr hf => exact .thrown ⟨_, _, _, .pending hr, Frame.run_of_fire_eq_error hs hf⟩
  | read hsettled hr => exact rejects_of_step hsettled hs hr
  | @finish run index _ hsettled hf =>
    have hscope : ∀ frame ∈ run.frames.head?, frame.operation.isScope = true := fun frame hf => by
      simpa [releases] using hsettled frame hf
    rw [Run.finish, Run.unwindScope_of_head hscope, ok_bind] at hf
    split at hf
    · split at hf <;> cases hf <;> cases hs
    · split at hf
      · rcases bind_eq_error.1 hf with hv | ⟨_, _, hf⟩
        · obtain ⟨_, rfl⟩ := Bindings.value_eq_error hv
          cases hs
        · cases hf
      · cases hf
        cases hs

end Moment

end Abacus
