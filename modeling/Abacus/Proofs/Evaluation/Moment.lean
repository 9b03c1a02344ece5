import Mathlib.Logic.Relation
import Abacus.Proofs.Evaluation.Unwinding

/-!
# The moments of a run

An evaluation taken apart into its smallest steps. A token first lets pending operations go, one
after the other (`releases`), and is then read by a run in which none has to go any more. A moment
is a run between two such steps, and `Moment.Next` leads from a moment to the next one.

* `Run.step_eq_ok`, `Run.Reads.step_eq`: a token is read exactly as one of the things there are, with
  all that reading it requires (`Run.Reads`);
* `Moment.Next.result_eq`: what the evaluation of the rest comes to does not change along a step;
* `exists_reaches`: an evaluation that has a value reaches a moment with nothing left to do.
-/

namespace Abacus

/-- Whether a token is read as the end of a scope. -/
def Token.closes (registry : Registry) (previous : Reading) (token : Token) : Bool :=
  if token.isSymbol Name.callOpen ∧ previous = .function then false
  else
    match registry.bracket? token.text with
    | some op => op.kind ≠ .openBracket
    | none => !token.isSymbol Name.callOpen

/-- Whether the next token, or the end where there is none, lets a pending operation go. -/
def releases (registry : Registry) (previous : Reading) (token? : Option Token)
    (pending : Operation) : Bool :=
  match token? with
  | none => !pending.isScope
  | some token =>
    if previous.completesOperand ∧ token.startsOperand registry then false
    else
      match token.kind with
      | .separator => !pending.isScope
      | .bracket => token.closes registry previous && !pending.isScope
      | .operator =>
        previous.completesOperand && (registry.find? token.text .binary).any pending.firesBefore
      | .literal | .var | .function => false

/-- A run, the place of the next token, and the tokens that are still to be read. -/
structure Moment where
  /-- The run. -/
  run : Run
  /-- The place of the next token. -/
  index : Nat
  /-- The tokens to come. -/
  rest : List Token

/-- One step of an evaluation: a pending operation goes, or a token is read. -/
inductive Moment.Next (registry : Registry) (store : Store) : Moment → Moment → Prop where
  | fire {frame : Frame} {frames : List Frame} {w w' : Workspace} {previous : Reading} {index : Nat}
    {rest : List Token} (hr : releases registry previous rest.head? frame.operation = true)
    (hf : frame.fire w = .ok w') :
    Next registry store ⟨⟨frame :: frames, w, previous⟩, index, rest⟩
      ⟨⟨frames, w', previous⟩, index, rest⟩
  | read {run run' : Run} {index : Nat} {token : Token} {rest : List Token}
    (hs : ∀ frame ∈ run.frames.head?,
      releases registry run.previous (some token) frame.operation = false)
    (hr : run.step registry store index token rest.head? = .ok run') :
    Next registry store ⟨run, index, token :: rest⟩ ⟨run', index + 1, rest⟩

/-- The moments of the evaluation of a list of tokens. -/
def Reaches (registry : Registry) (store : Store) (tokens : List Token) (m : Moment) : Prop :=
  Relation.ReflTransGen (Moment.Next registry store) ⟨.start, 0, tokens⟩ m

/-- What the rest of the evaluation comes to. -/
def Moment.result (registry : Registry) (store : Store) (m : Moment) :
    Except EvalError (Float × Bindings) :=
  runTokens registry store m.run m.index m.rest >>= Run.finish

variable {registry : Registry} {store : Store}

/-! ## Letting go -/

namespace Run

variable {frame : Frame} {frames : List Frame} {w : Workspace} {previous : Reading} {run : Run}

theorem unwindScope_cons (h : frame.operation.isScope = false) :
    unwindScope ⟨frame :: frames, w, previous⟩ =
      frame.fire w >>= fun w => unwindScope ⟨frames, w, previous⟩ :=
  unwind_cons (by simp [h])

theorem unwindScope_of_head (h : ∀ frame ∈ run.frames.head?, frame.operation.isScope = true) :
    run.unwindScope = .ok run :=
  unwind_of_head fun frame hf => by simp [h frame hf]

/-- Only tokens that do not begin an operand let operations go. -/
theorem not_startsOperand_of_releases {token : Token} {op : Operation}
    (h : releases registry previous (some token) op = true) :
    ¬(previous.completesOperand = true ∧ token.startsOperand registry = true) := by
  intro hs
  simp [releases, hs] at h

/-- Letting an operation go and reading the token is reading the token. -/
theorem step_of_releases {token : Token} {index : Nat} {next : Option Token}
    (h : releases registry previous (some token) frame.operation = true) :
    step registry store ⟨frame :: frames, w, previous⟩ index token next =
      frame.fire w >>= fun w => step registry store ⟨frames, w, previous⟩ index token next := by
  have hs := not_startsOperand_of_releases h
  simp only [step, hs, if_false]
  simp only [releases, hs, if_false] at h
  cases hk : token.kind with
  | separator =>
    simp only [hk, Bool.not_eq_true'] at h
    simp only [separate, unwindScope_cons h, bind_assoc]
  | bracket =>
    simp only [hk, Bool.and_eq_true, Bool.not_eq_true'] at h
    obtain ⟨hc, h⟩ := h
    have hclose : ∀ opener, close ⟨frame :: frames, w, previous⟩ token opener =
        frame.fire w >>= fun w => close ⟨frames, w, previous⟩ token opener := by
      intro opener
      simp only [close, unwindScope_cons h, bind_assoc]
    unfold Token.closes at hc
    split at hc
    · cases hc
    · rename_i hcall
      simp only [readBracket, hcall, if_false]
      cases hb : registry.bracket? token.text with
      | none =>
        simp only [hb, Bool.not_eq_true'] at hc
        simpa [hc] using hclose none
      | some op =>
        simp only [hb, decide_eq_true_eq] at hc
        simpa [hc] using hclose op.opener?
  | operator =>
    simp only [hk, Bool.and_eq_true] at h
    obtain ⟨hp, h⟩ := h
    obtain ⟨op, ho, hf⟩ := (Option.any_eq_true _ _).1 h
    have hu : unwind ⟨frame :: frames, w, previous⟩ (fun pending => pending.firesBefore op) =
        frame.fire w >>= fun w =>
          unwind ⟨frames, w, previous⟩ fun pending => pending.firesBefore op := unwind_cons hf
    simp only [readOperator, Reading.not_expectsOperand_of_completesOperand hp, hp,
      readInfixOrPostfix, ho, hu, bind_assoc, Bool.false_eq_true, if_false, if_true]
  | literal | var | function => simp [hk] at h

theorem finish_of_releases (h : releases registry previous none frame.operation = true) :
    finish ⟨frame :: frames, w, previous⟩ =
      frame.fire w >>= fun w => finish ⟨frames, w, previous⟩ := by
  simp only [releases, Bool.not_eq_true'] at h
  simp only [finish, unwindScope_cons h, bind_assoc]

end Run

/-! ## Reading -/

/-- What a token is read as by a run in which nothing has to go before it. -/
inductive Run.Reads (registry : Registry) (store : Store) (next : Option Token) (run : Run) :
    Token → Run → Prop where
  | separator {text : String} {frame : Frame} {frames : List Frame}
    (hf : run.frames = frame :: frames) (hk : frame.operation.kind = .function) :
    Reads registry store next run ⟨.separator, text⟩ { run with previous := .separator }
  | literal {text : String} {value : Float} (hp : run.previous.completesOperand = false)
    (hv : Number.read? text.toList = some value) :
    Reads registry store next run ⟨.literal, text⟩ (run.pushOperand (.literal value) .literal)
  | var {name : String} (hp : run.previous.completesOperand = false) :
    Reads registry store next run ⟨.var, name⟩ (run.readVariable store name)
  | function {name : String} {token : Token} {op : Operation}
    (hp : run.previous.completesOperand = false) (hn : next = some token)
    (ht : token.isSymbol Name.callOpen = true) (ho : registry.find? name .function = some op) :
    Reads registry store next run ⟨.function, name⟩ (run.pushFrame op .function)
  | callOpen {text : String} (hp : run.previous = .function)
    (ht : Token.isSymbol ⟨.bracket, text⟩ Name.callOpen = true) :
    Reads registry store next run ⟨.bracket, text⟩ { run with previous := .callOpen }
  | openBracket {text : String} {op : Operation} (hp : run.previous.completesOperand = false)
    (hc : ¬(Token.isSymbol ⟨.bracket, text⟩ Name.callOpen = true ∧ run.previous = .function))
    (ho : registry.bracket? text = some op) (hk : op.kind = .openBracket) :
    Reads registry store next run ⟨.bracket, text⟩ (run.pushFrame op .openBracket)
  | callClose {text : String} {frame : Frame} {frames : List Frame} {w : Workspace}
    (hc : Token.closes registry run.previous ⟨.bracket, text⟩ = true)
    (hf : run.frames = frame :: frames) (hk : frame.operation.kind = .function)
    (ht : Token.isSymbol ⟨.bracket, text⟩ Name.callClose = true)
    (hw : frame.fire run.workspace = .ok w) :
    Reads registry store next run ⟨.bracket, text⟩ ⟨frames, w, .callClose⟩
  | closeBracket {text : String} {frame : Frame} {frames : List Frame} {op : Operation}
    {w : Workspace} (hc : Token.closes registry run.previous ⟨.bracket, text⟩ = true)
    (hf : run.frames = frame :: frames) (hk : frame.operation.kind = .openBracket)
    (ho : registry.bracket? text = some op) (hn : op.opener? = some frame.operation.name)
    (hw : frame.fire run.workspace = .ok w) :
    Reads registry store next run ⟨.bracket, text⟩ ⟨frames, w, .closeBracket⟩
  | prefixOp {name : String} {op : Operation} (hp : run.previous.expectsOperand = true)
    (ho : registry.find? name .prefixOp = some op) :
    Reads registry store next run ⟨.operator, name⟩ (run.pushFrame op .prefixOp)
  | binary {name : String} {op : Operation} (hp : run.previous.completesOperand = true)
    (ho : registry.find? name .binary = some op) :
    Reads registry store next run ⟨.operator, name⟩ (run.pushFrame op .binary)
  | postfixOp {name : String} {op : Operation} {w : Workspace}
    (hp : run.previous.completesOperand = true) (hb : registry.find? name .binary = none)
    (ho : registry.find? name .postfixOp = some op) (hw : run.workspace.run op = .ok w) :
    Reads registry store next run ⟨.operator, name⟩
      { run with workspace := w, previous := .postfixOp }

namespace Run

variable {run run' : Run} {index : Nat} {token : Token} {next : Option Token}

/-- What a closing bracket does once nothing has to go before it. -/
theorem close_eq_ok {opener : Option String}
    (hs : ∀ frame ∈ run.frames.head?, frame.operation.isScope = true)
    (h : run.close token opener = .ok run') :
    ∃ frame frames w, run.frames = frame :: frames ∧ frame.fire run.workspace = .ok w ∧
      ((frame.operation.kind = .function ∧ token.isSymbol Name.callClose = true ∧
          run' = ⟨frames, w, .callClose⟩) ∨
        (frame.operation.kind = .openBracket ∧ opener = some frame.operation.name ∧
          run' = ⟨frames, w, .closeBracket⟩)) := by
  rw [close, unwindScope_of_head hs, ok_bind] at h
  split at h
  · cases h
  · rename_i frame frames hf
    refine ⟨frame, frames, ?_⟩
    split at h
    · rename_i hk
      obtain ⟨w, hw, h⟩ := bind_eq_ok.1 h
      exact ⟨w, hf, hw, .inl ⟨hk.1, hk.2, (Except.ok.inj h).symm⟩⟩
    · split at h
      · rename_i hk
        obtain ⟨w, hw, h⟩ := bind_eq_ok.1 h
        exact ⟨w, hf, hw, .inr ⟨hk.1, hk.2, (Except.ok.inj h).symm⟩⟩
      · cases h

/-- A token that is read by a run in which nothing has to go is read in one of the ways there are. -/
theorem step_eq_ok
    (hs : ∀ frame ∈ run.frames.head?,
      releases registry run.previous (some token) frame.operation = false)
    (h : run.step registry store index token next = .ok run') :
    Reads registry store next run token run' := by
  obtain ⟨kind, text⟩ := token
  unfold step at h
  split at h
  · cases h
  rename_i hstart
  have hfresh : Token.startsOperand registry ⟨kind, text⟩ = true →
      run.previous.completesOperand = false := fun ht =>
    Bool.eq_false_iff.2 fun hp => hstart ⟨hp, ht⟩
  cases kind with
  | separator =>
    have hscope : ∀ frame ∈ run.frames.head?, frame.operation.isScope = true := fun frame hf => by
      simpa [releases, Token.startsOperand] using hs frame hf
    simp only [separate, unwindScope_of_head hscope, ok_bind] at h
    split at h
    · rename_i frame frames hf
      split at h
      · rename_i hk
        obtain rfl := Except.ok.inj h
        exact .separator hf hk
      · cases h
    · cases h
  | literal =>
    simp only [readLiteral] at h
    split at h
    · rename_i value hv
      obtain rfl := Except.ok.inj h
      exact .literal (hfresh rfl) hv
    · cases h
  | var =>
    obtain rfl := Except.ok.inj h
    exact .var (hfresh rfl)
  | function =>
    simp only [readFunction] at h
    split at h
    · rename_i hn
      obtain ⟨token, hn, ht⟩ := (Option.any_eq_true _ _).1 hn
      split at h
      · rename_i op ho
        obtain rfl := Except.ok.inj h
        exact .function (hfresh rfl) hn ht ho
      · cases h
    · cases h
  | bracket =>
    simp only [readBracket] at h
    split at h
    · rename_i hc
      obtain rfl := Except.ok.inj h
      exact .callOpen hc.2 hc.1
    · rename_i hc
      have hscope : Token.closes registry run.previous ⟨.bracket, text⟩ = true →
          ∀ frame ∈ run.frames.head?, frame.operation.isScope = true := fun ht frame hf => by
        simpa [releases, hstart, ht] using hs frame hf
      split at h
      · rename_i op ho
        split at h
        · rename_i hk
          obtain rfl := Except.ok.inj h
          exact .openBracket (hfresh (by simp [Token.startsOperand, ho, hk])) hc ho hk
        · rename_i hk
          have ht : Token.closes registry run.previous ⟨.bracket, text⟩ = true := by
            simp [Token.closes, hc, ho, hk]
          obtain ⟨frame, frames, w, hf, hw, ⟨hk, hsym, rfl⟩ | ⟨hk, hn, rfl⟩⟩ :=
            close_eq_ok (hscope ht) h
          · exact .callClose ht hf hk hsym hw
          · exact .closeBracket ht hf hk ho hn hw
      · rename_i ho
        split at h
        · cases h
        · rename_i hsym
          have ht : Token.closes registry run.previous ⟨.bracket, text⟩ = true := by
            simp [Token.closes, ho, hsym]
          obtain ⟨frame, frames, w, hf, hw, ⟨hk, hsym, rfl⟩ | ⟨hk, hn, rfl⟩⟩ :=
            close_eq_ok (hscope ht) h
          · exact .callClose ht hf hk hsym hw
          · cases hn
  | operator =>
    simp only [readOperator] at h
    split at h
    · rename_i hp
      split at h
      · rename_i op ho
        obtain rfl := Except.ok.inj h
        exact .prefixOp hp ho
      · cases h
    · split at h
      · rename_i hp
        simp only [readInfixOrPostfix] at h
        split at h
        · rename_i op ho
          have hready : ∀ frame ∈ run.frames.head?, frame.operation.firesBefore op = false :=
            fun frame hf => by
              simpa [releases, Token.startsOperand, hp, ho] using hs frame hf
          rw [show run.unwind (fun pending => pending.firesBefore op) = .ok run from
            unwind_of_head hready, ok_bind] at h
          obtain rfl := Except.ok.inj h
          exact .binary hp ho
        · rename_i hb
          split at h
          · rename_i op ho
            obtain ⟨w, hw, h⟩ := bind_eq_ok.1 h
            obtain rfl := Except.ok.inj h
            exact .postfixOp hp hb ho hw
          · cases h
      · cases h

/-- What a token is read as is what the step leads to, if nothing has to go before it. -/
theorem Reads.step_eq
    (hs : ∀ frame ∈ run.frames.head?,
      releases registry run.previous (some token) frame.operation = false)
    (h : Reads registry store next run token run') (index : Nat) :
    run.step registry store index token next = .ok run' := by
  -- A bracket that closes does not begin an operand, and closes a scope of its own.
  have hclose : ∀ {text : String}, Token.closes registry run.previous ⟨.bracket, text⟩ = true →
      run.step registry store index ⟨.bracket, text⟩ next =
        run.close ⟨.bracket, text⟩ ((registry.bracket? text).bind Operation.opener?) := by
    intro text hc
    unfold Token.closes at hc
    split at hc
    · cases hc
    · rename_i hcall
      cases hb : registry.bracket? text with
      | none =>
        simp only [hb, Bool.not_eq_true'] at hc
        simp [step, Token.startsOperand, readBracket, hb, hc]
      | some op =>
        simp only [hb, decide_eq_true_eq] at hc
        simp only [step, Token.startsOperand, readBracket, hb, hc, hcall, Option.any_some,
          decide_false, Bool.false_eq_true, and_false, if_false, Option.bind_some]
  cases h with
  | @separator text frame frames hf hk =>
    obtain ⟨_, w, previous⟩ := run
    obtain rfl : _ = frame :: frames := hf
    have hu : unwindScope ⟨frame :: frames, w, previous⟩ = .ok ⟨frame :: frames, w, previous⟩ :=
      unwindScope_of_head (by simp [Operation.isScope, hk])
    exact step_separator.trans (separate_of_unwindScope (x := .ok w) hk hu)
  | literal hp hv => simp [step, readLiteral, hp, hv]
  | var hp => simp [step, hp]
  | function hp hn ht ho => simp [step, readFunction, hp, hn, ht, ho]
  | callOpen hp ht => simp [step, readBracket, hp, ht, Reading.completesOperand]
  | openBracket hp hc ho hk => simp [step, readBracket, hp, hc, ho, hk]
  | @callClose text frame frames w' hc hf hk ht hw =>
    obtain ⟨_, w, previous⟩ := run
    obtain rfl : _ = frame :: frames := hf
    have hu : unwindScope ⟨frame :: frames, w, previous⟩ = .ok ⟨frame :: frames, w, previous⟩ :=
      unwindScope_of_head (by simp [Operation.isScope, hk])
    rw [hclose hc, close_call (x := .ok w) hk ht _ hu, ok_bind, hw, ok_bind]
  | @closeBracket text frame frames op w' hc hf hk ho hn hw =>
    obtain ⟨_, w, previous⟩ := run
    obtain rfl : _ = frame :: frames := hf
    have hu : unwindScope ⟨frame :: frames, w, previous⟩ = .ok ⟨frame :: frames, w, previous⟩ :=
      unwindScope_of_head (by simp [Operation.isScope, hk])
    rw [hclose hc, ho, Option.bind_some, hn, close_group (x := .ok w) hk hu, ok_bind, hw, ok_bind]
  | prefixOp hp ho => exact step_prefixOp hp ho
  | @binary name op hp ho =>
    have hu : run.unwind (fun pending => pending.firesBefore op) = .ok run :=
      unwind_of_head fun frame hf => by
        simpa [releases, Token.startsOperand, hp, ho] using hs frame hf
    rw [step_binary hp ho, hu, ok_bind]
  | postfixOp hp hb ho hw => rw [step_postfixOp hp hb ho, hw, ok_bind]

end Run

/-! ## Steps and the whole -/

namespace Moment

variable {m m' : Moment}

/-- The result when a pending operation goes first. -/
theorem result_of_releases {frame : Frame} {frames : List Frame} {w : Workspace}
    {previous : Reading} {index : Nat} {rest : List Token}
    (h : releases registry previous rest.head? frame.operation = true) :
    result registry store ⟨⟨frame :: frames, w, previous⟩, index, rest⟩ =
      frame.fire w >>= fun w => result registry store ⟨⟨frames, w, previous⟩, index, rest⟩ := by
  cases rest with
  | nil => exact Run.finish_of_releases h
  | cons token rest =>
    simp only [result, runTokens_cons, Run.step_of_releases h, bind_assoc]

/-- What holds of all operations of the registry holds of all that wait. -/
theorem Next.forall_frames {P : Operation → Prop}
    (hp : ∀ name kind op, registry.find? name kind = some op → P op)
    (h : Next registry store m m') (hf : ∀ frame ∈ m.run.frames, P frame.operation) :
    ∀ frame ∈ m'.run.frames, P frame.operation := by
  cases h with
  | fire => exact (List.forall_mem_cons.1 hf).2
  | read hs hr =>
    cases Run.step_eq_ok hs hr with
    | separator | literal | var | callOpen | postfixOp => exact hf
    | function _ _ _ ho | prefixOp _ ho | binary _ ho =>
      exact List.forall_mem_cons.2 ⟨hp _ _ _ ho, hf⟩
    | openBracket _ _ ho =>
      rcases Option.or_eq_some_iff.1 ho with ho | ⟨_, ho⟩ <;>
        exact List.forall_mem_cons.2 ⟨hp _ _ _ ho, hf⟩
    | callClose _ he | closeBracket _ he => exact (List.forall_mem_cons.1 (he ▸ hf)).2

/-- A step changes nothing about what the evaluation comes to. -/
theorem Next.result_eq (h : Next registry store m m') :
    m.result registry store = m'.result registry store := by
  cases h with
  | fire hr hf => rw [result_of_releases hr, hf, ok_bind]
  | read hs hr => simp only [result, runTokens_cons, hr, ok_bind]

/-- There is one next moment at most. -/
theorem Next.unique {m'' : Moment} (h : Next registry store m m') (h' : Next registry store m m'') :
    m' = m'' := by
  cases h with
  | fire hr hf =>
    cases h' with
    | fire _ hf' => rw [Except.ok.inj (hf.symm.trans hf')]
    | read hs _ => cases (hs _ rfl).symm.trans hr
  | read hs hr =>
    cases h' with
    | fire hr' _ => cases (hs _ rfl).symm.trans hr'
    | read _ hr' => rw [Except.ok.inj (hr.symm.trans hr')]

/-- A moment leads to itself and to what the next one leads to. -/
theorem Next.eq_or_reaches {m'' : Moment} (h : Next registry store m m')
    (hm : Relation.ReflTransGen (Next registry store) m m'') :
    m'' = m ∨ Relation.ReflTransGen (Next registry store) m' m'' := by
  rcases Relation.ReflTransGen.cases_head hm with rfl | ⟨next, hn, hrest⟩
  · exact .inl rfl
  · exact .inr (h.unique hn ▸ hrest)

/-- A run that ends with a value and nothing to let go has one operand and nothing that waits. -/
theorem finish_eq_ok {run : Run} {value : Float} {bindings : Bindings}
    (hs : ∀ frame ∈ run.frames.head?, frame.operation.isScope = true)
    (h : run.finish = .ok (value, bindings)) :
    ∃ operand, run.frames = [] ∧ run.workspace = ⟨[operand], bindings⟩ ∧
      bindings.value operand = .ok value := by
  rw [Run.finish, Run.unwindScope_of_head hs, ok_bind] at h
  obtain ⟨frames, ⟨operands, bindings'⟩, previous⟩ := run
  split at h
  · split at h <;> cases h
  · rename_i hf
    split at h
    · rename_i operand ho
      obtain ⟨v, hv, h⟩ := bind_eq_ok.1 h
      obtain ⟨rfl, rfl⟩ := Prod.mk.inj (Except.ok.inj h)
      obtain rfl : operands = [operand] := ho
      exact ⟨operand, hf, rfl, hv⟩
    · cases h

/-- Reading a token, with what has to go before it, leads to the moment after the token. -/
theorem reaches_of_step {run run' : Run} {index : Nat} {token : Token} {rest : List Token}
    (h : run.step registry store index token rest.head? = .ok run') :
    Relation.ReflTransGen (Next registry store) ⟨run, index, token :: rest⟩
      ⟨run', index + 1, rest⟩ := by
  obtain ⟨frames, w, previous⟩ := run
  induction frames generalizing w with
  | nil => exact .single (.read (by simp) h)
  | cons frame frames ih =>
    cases hr : releases registry previous (some token) frame.operation with
    | false => exact .single (.read (by simpa using hr) h)
    | true =>
      rw [Run.step_of_releases hr] at h
      obtain ⟨w', hf, h⟩ := bind_eq_ok.1 h
      exact .head (.fire hr hf) (ih w' h)

theorem reaches_of_runTokens {run run' : Run} {index : Nat} {tokens : List Token}
    (h : runTokens registry store run index tokens = .ok run') :
    Relation.ReflTransGen (Next registry store) ⟨run, index, tokens⟩
      ⟨run', index + tokens.length, []⟩ := by
  induction tokens generalizing run index with
  | nil =>
    obtain rfl := Except.ok.inj h
    exact .refl
  | cons token rest ih =>
    rw [runTokens_cons] at h
    obtain ⟨next, hs, h⟩ := bind_eq_ok.1 h
    rw [List.length_cons, Nat.add_comm rest.length, ← Nat.add_assoc]
    exact (reaches_of_step hs).trans (ih h)

/-- Ending a run with a value leads to a moment with one operand, which has the value. -/
theorem reaches_of_finish {run : Run} {index : Nat} {value : Float} {bindings : Bindings}
    (h : run.finish = .ok (value, bindings)) :
    ∃ operand, bindings.value operand = .ok value ∧
      Relation.ReflTransGen (Next registry store) ⟨run, index, []⟩
        ⟨⟨[], ⟨[operand], bindings⟩, run.previous⟩, index, []⟩ := by
  obtain ⟨frames, w, previous⟩ := run
  induction frames generalizing w with
  | nil =>
    obtain ⟨operand, _, hw, hv⟩ := finish_eq_ok (by simp) h
    obtain rfl : w = _ := hw
    exact ⟨operand, hv, .refl⟩
  | cons frame frames ih =>
    cases hr : releases registry previous none frame.operation with
    | false =>
      obtain ⟨operand, hf, _⟩ := finish_eq_ok (by simpa [releases] using hr) h
      cases hf
    | true =>
      rw [Run.finish_of_releases hr] at h
      obtain ⟨w', hf, h⟩ := bind_eq_ok.1 h
      obtain ⟨operand, hv, hpath⟩ := ih w' h
      exact ⟨operand, hv, .head (.fire hr hf) hpath⟩

end Moment

/-- At every moment of an evaluation the rest of it comes to what all of it comes to. -/
theorem Reaches.result_eq {tokens : List Token} {m : Moment} (h : Reaches registry store tokens m) :
    m.result registry store = runAll registry store tokens := by
  induction h with
  | refl => rfl
  | tail _ hn ih => rw [← ih, hn.result_eq]

/-- What holds of all operations of the registry holds of all that wait. -/
theorem Reaches.forall_frames {P : Operation → Prop} {tokens : List Token} {m : Moment}
    (hp : ∀ name kind op, registry.find? name kind = some op → P op)
    (h : Reaches registry store tokens m) : ∀ frame ∈ m.run.frames, P frame.operation := by
  induction h with
  | refl => exact nofun
  | tail _ hn ih => exact hn.forall_frames hp ih

/-- An evaluation that has a value reaches a moment where nothing waits and nothing is to be read,
with one operand, which has the value. -/
theorem exists_reaches {tokens : List Token} {value : Float} {bindings : Bindings}
    (h : runAll registry store tokens = .ok (value, bindings)) :
    ∃ operand previous index,
      Reaches registry store tokens ⟨⟨[], ⟨[operand], bindings⟩, previous⟩, index, []⟩ ∧
        bindings.value operand = .ok value := by
  obtain ⟨run, hrun, hfinish⟩ := bind_eq_ok.1 h
  obtain ⟨operand, hv, hpath⟩ := Moment.reaches_of_finish hfinish
  exact ⟨operand, run.previous, _, (Moment.reaches_of_runTokens hrun).trans hpath, hv⟩

end Abacus
