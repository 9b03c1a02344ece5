import Mathlib.Control.Monad.Basic
import Abacus.Proofs.Evaluation.Height
import Abacus.Proofs.Library.Registered

/-!
# Nesting

The names of functions and the brackets of an expression begin and end scopes, and separators stand
between the arguments of a call (`marks`). Tokens that have a value are properly nested: every call is
ended by a parenthesis, every group by a bracket that names the one it began with, and separators stand
directly inside calls only (`nested_of_evaluateTokens`).

What the run has read is nested but for the scopes that wait: each of them has begun and goes on to the
end of what has been read (`Unclosed`).

* `Nested.append`: two nested words make one;
* `Unclosed.extend`: what is nested can be added at the end;
* `Run.Reads.unclosed`: a token adds its mark, and begins or ends a scope if its mark does.
-/

namespace Abacus

/-! ## Marks -/

/-- What a token is for the nesting of scopes. -/
inductive Mark where
  /-- A function begins a call. -/
  | call
  /-- A bracket begins a group. -/
  | group (opener : String)
  /-- A bracket ends a scope. -/
  | close (closer : String)
  /-- A separator ends an argument. -/
  | separator
deriving DecidableEq

/-- The mark of a token: none for a token that is neither a function nor a bracket nor a separator, and
none for the parenthesis after a function. -/
def Token.mark? (registry : Registry) (afterFunction : Bool) (token : Token) : Option Mark :=
  match token.kind with
  | .function => some .call
  | .separator => some .separator
  | .bracket =>
    if afterFunction = true ∧ token.isSymbol Name.callOpen = true then none
    else if (registry.bracket? token.text).any fun op => op.kind = .openBracket then
      some (.group token.text)
    else some (.close token.text)
  | .literal | .operator | .var => none

/-- The marks of a list of tokens. -/
def marks (registry : Registry) (afterFunction : Bool) : List Token → List Mark
  | [] => []
  | token :: tokens =>
    (token.mark? registry afterFunction).toList ++
      marks registry (decide (token.kind = .function)) tokens

/-- Properly nested marks inside a call, or not directly inside one. A call ends in a closing
parenthesis, a group in a bracket that names its opening one, and separators stand directly inside calls
only. -/
inductive Nested (registry : Registry) : Bool → List Mark → Prop where
  | nil {inCall : Bool} : Nested registry inCall []
  | separator {rest : List Mark} (h : Nested registry true rest) :
    Nested registry true (.separator :: rest)
  | call {inCall : Bool} {content rest : List Mark} (hc : Nested registry true content)
    (h : Nested registry inCall rest) :
    Nested registry inCall (.call :: (content ++ .close ")" :: rest))
  | group {inCall : Bool} {content rest : List Mark} {opener closer : String} {op : Operation}
    (ho : registry.bracket? closer = some op) (hn : op.opener? = some opener)
    (hc : Nested registry false content) (h : Nested registry inCall rest) :
    Nested registry inCall (.group opener :: (content ++ .close closer :: rest))

variable {registry : Registry} {store : Store}

theorem Nested.append {inCall : Bool} {xs ys : List Mark} (hx : Nested registry inCall xs)
    (hy : Nested registry inCall ys) : Nested registry inCall (xs ++ ys) := by
  induction hx with
  | nil => exact hy
  | separator _ ih => exact .separator (ih hy)
  | call hc _ _ ih =>
    rw [List.cons_append, List.append_assoc, List.cons_append]
    exact .call hc (ih hy)
  | group ho hn hc _ _ ih =>
    rw [List.cons_append, List.append_assoc, List.cons_append]
    exact .group ho hn hc (ih hy)

/-! ## Scopes that wait -/

/-- Marks that are nested but for the scopes among what waits, the innermost of which is the first. -/
inductive Unclosed (registry : Registry) : List Mark → List Frame → Prop where
  | outermost {word : List Mark} (h : Nested registry false word) : Unclosed registry word []
  | operator {word : List Mark} {frame : Frame} {frames : List Frame}
    (hs : frame.operation.isScope = false) (h : Unclosed registry word frames) :
    Unclosed registry word (frame :: frames)
  | call {before content : List Mark} {frame : Frame} {frames : List Frame}
    (hk : frame.operation.kind = .function) (h : Unclosed registry before frames)
    (hc : Nested registry true content) :
    Unclosed registry (before ++ .call :: content) (frame :: frames)
  | group {before content : List Mark} {frame : Frame} {frames : List Frame}
    (hk : frame.operation.kind = .openBracket) (h : Unclosed registry before frames)
    (hc : Nested registry false content) :
    Unclosed registry (before ++ .group frame.operation.name :: content) (frame :: frames)

namespace Unclosed

variable {word more : List Mark} {frame : Frame} {frames : List Frame}

/-- What is nested can be added at the end. -/
theorem extend (h : Unclosed registry word frames) (hm : ∀ inCall, Nested registry inCall more) :
    Unclosed registry (word ++ more) frames := by
  induction h with
  | outermost h => exact .outermost (h.append (hm false))
  | operator hs _ ih => exact .operator hs ih
  | call hk h hc =>
    rw [List.append_assoc, List.cons_append]
    exact .call hk h (hc.append (hm true))
  | group hk h hc =>
    rw [List.append_assoc, List.cons_append]
    exact .group hk h (hc.append (hm false))

/-- An operator that waits is no scope. -/
theorem of_operator (h : Unclosed registry word (frame :: frames))
    (hs : frame.operation.isScope = false) : Unclosed registry word frames := by
  cases h with
  | operator _ h => exact h
  | call hk | group hk => simp [Operation.isScope, hk] at hs

/-- A separator stands directly inside the call that waits first. -/
theorem separate (h : Unclosed registry word (frame :: frames))
    (hk : frame.operation.kind = .function) :
    Unclosed registry (word ++ [.separator]) (frame :: frames) := by
  cases h with
  | operator hs => simp [Operation.isScope, hk] at hs
  | call _ h hc =>
    rw [List.append_assoc, List.cons_append]
    exact .call hk h (hc.append (.separator .nil))
  | group hk' => simp [hk] at hk'

/-- A parenthesis ends the call that waits first. -/
theorem closeCall (h : Unclosed registry word (frame :: frames))
    (hk : frame.operation.kind = .function) : Unclosed registry (word ++ [.close ")"]) frames := by
  cases h with
  | operator hs => simp [Operation.isScope, hk] at hs
  | call _ h hc =>
    rw [List.append_assoc, List.cons_append]
    exact h.extend fun _ => .call hc .nil
  | group hk' => simp [hk] at hk'

/-- A bracket that names the one that waits first ends its group. -/
theorem closeGroup (h : Unclosed registry word (frame :: frames))
    (hk : frame.operation.kind = .openBracket) {closer : String} {op : Operation}
    (ho : registry.bracket? closer = some op) (hn : op.opener? = some frame.operation.name) :
    Unclosed registry (word ++ [.close closer]) frames := by
  cases h with
  | operator hs => simp [Operation.isScope, hk] at hs
  | call hk' => simp [hk] at hk'
  | group _ h hc =>
    rw [List.append_assoc, List.cons_append]
    exact h.extend fun _ => .group ho hn hc .nil

end Unclosed

/-! ## Every moment -/

/-- The mark of a bracket that is read as the end of a scope. -/
theorem Token.mark?_of_closes {text : String} {previous : Reading}
    (h : Token.closes registry previous ⟨.bracket, text⟩ = true) :
    Token.mark? registry (decide (previous = .function)) ⟨.bracket, text⟩ = some (.close text) := by
  unfold Token.closes at h
  split at h
  · cases h
  · rename_i hcall
    rw [and_comm] at hcall
    cases hb : registry.bracket? text with
    | none => simp [mark?, hcall, hb]
    | some op =>
      simp only [hb, decide_eq_true_eq] at h
      simp [mark?, hcall, hb, h]

/-- A token that is read adds its mark, and it begins or ends a scope if its mark does. -/
theorem Run.Reads.unclosed (hreach : registry.Reachable) {run run' : Run} {token : Token}
    {next : Option Token} (h : run.Reads registry store next token run') {word : List Mark}
    (hu : Unclosed registry word run.frames) :
    Unclosed registry
      (word ++ (token.mark? registry (decide (run.previous = .function))).toList) run'.frames := by
  have hsame : Unclosed registry (word ++ []) run.frames := by rwa [List.append_nil]
  cases h with
  | separator hf hk =>
    rw [hf] at hu
    show Unclosed registry (word ++ [.separator]) run.frames
    rw [hf]
    exact hu.separate hk
  | literal | var | postfixOp => exact hsame
  | function _ _ _ ho => exact .call (hreach.find?_eq_some ho).2.1 hu .nil
  | @callOpen text hp ht =>
    have hmark : Token.mark? registry (decide (run.previous = .function)) ⟨.bracket, text⟩ = none := by
      simp [Token.mark?, hp, ht]
    rw [hmark]
    exact hsame
  | @openBracket text op _ hc ho hk =>
    rw [and_comm] at hc
    have hmark : Token.mark? registry (decide (run.previous = .function)) ⟨.bracket, text⟩ =
        some (.group op.name) := by
      simp [Token.mark?, hc, ho, hk, (hreach.bracket?_eq_some ho).1]
    rw [hmark]
    exact @Unclosed.group registry word [] ⟨op, run.workspace.operands.length⟩ _ hk hu .nil
  | @callClose text frame frames w hc hf hk ht hw =>
    obtain rfl : text = ")" := Token.text_of_isSymbol ht
    rw [hf] at hu
    rw [Token.mark?_of_closes hc]
    exact hu.closeCall hk
  | closeBracket hc hf hk ho hn _ =>
    rw [hf] at hu
    rw [Token.mark?_of_closes hc]
    exact hu.closeGroup hk ho hn
  | prefixOp _ ho | binary _ ho =>
    refine .operator ?_ hsame
    simp [Operation.isScope, (hreach.find?_eq_some ho).2.1]

/-- Only the name of a function is read as one. -/
theorem Run.Reads.previous_eq_function_iff {run run' : Run} {token : Token} {next : Option Token}
    (h : run.Reads registry store next token run') :
    run'.previous = .function ↔ token.kind = .function := by
  cases h <;> simp [pushOperand, pushFrame, readVariable]

/-- The marks of what has been read are nested but for the scopes that wait. -/
theorem Reaches.unclosed (hreach : registry.Reachable) {tokens : List Token} {m : Moment}
    (h : Reaches registry store tokens m) :
    ∃ word, marks registry false tokens =
        word ++ marks registry (decide (m.run.previous = .function)) m.rest ∧
      Unclosed registry word m.run.frames := by
  induction h with
  | refl => exact ⟨[], rfl, .outermost .nil⟩
  | tail _ hn ih =>
    obtain ⟨word, hword, hu⟩ := ih
    cases hn with
    | fire hr hf => exact ⟨word, hword, hu.of_operator (Operation.not_isScope_of_releases hr)⟩
    | read hs hr =>
      have hreads := Run.step_eq_ok hs hr
      refine ⟨_, ?_, hreads.unclosed hreach hu⟩
      rw [hword, List.append_assoc]
      simp only [marks, hreads.previous_eq_function_iff]

/-- Tokens that have a value are properly nested. -/
theorem nested_of_evaluateTokens (hreach : registry.Reachable) {tokens : List Token} {value : Float}
    (h : (evaluateTokens registry store tokens).result = .ok value) :
    Nested registry false (marks registry false tokens) := by
  obtain ⟨bindings, hr⟩ := exists_runAll h
  obtain ⟨operand, previous, index, hm, -⟩ := exists_reaches hr
  obtain ⟨word, hword, hu⟩ := hm.unclosed hreach
  cases hu with
  | outermost h =>
    rw [hword]
    simpa [marks] using h

/-- The call of `max((1), -2)` holds a group and a separator, and the parenthesis after its name counts
for nothing. -/
theorem nested_max :
    marks Library.registry false [⟨.function, "max"⟩, ⟨.bracket, "("⟩, ⟨.bracket, "("⟩,
        ⟨.literal, "1"⟩, ⟨.bracket, ")"⟩, ⟨.separator, ","⟩, ⟨.operator, "-"⟩, ⟨.literal, "2"⟩,
        ⟨.bracket, ")"⟩] =
      [.call, .group "(", .close ")", .separator, .close ")"] ∧
    Nested Library.registry false [.call, .group "(", .close ")", .separator, .close ")"] := by
  have hmarks : marks Library.registry false [⟨.function, "max"⟩, ⟨.bracket, "("⟩,
        ⟨.bracket, "("⟩, ⟨.literal, "1"⟩, ⟨.bracket, ")"⟩, ⟨.separator, ","⟩, ⟨.operator, "-"⟩,
        ⟨.literal, "2"⟩, ⟨.bracket, ")"⟩] =
      [.call, .group "(", .close ")", .separator, .close ")"] := by
    decide +kernel
  refine ⟨hmarks, hmarks ▸ ?_⟩
  exact @nested_of_evaluateTokens _ ∅ Library.reachable_registry _ 1 (by decide +kernel)

end Abacus
