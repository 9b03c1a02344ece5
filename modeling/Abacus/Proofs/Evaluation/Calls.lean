import Mathlib.Control.Monad.Basic
import Abacus.Proofs.Evaluation.Height
import Abacus.Proofs.Expression.Phrase
import Abacus.Proofs.Library.Registered
import Abacus.Proofs.Token.Spelling

/-!
# Calls

The tokens that a run has read are an unfinished expression: every scope that waits begins another
phrase inside it (`Unfinished`). Operators that wait say nothing about the tokens: they count operands
and take them from wherever they are. A call counts operands too, so an argument in which one is still
due is passed over.

* `Unfinished.extend`: what can be added to a phrase can be added to the innermost one;
* `Reaches.accounts`: the tokens read so far are an unfinished expression at every moment;
* `phrase_of_runAll`: tokens that have a value are a complete phrase.
-/

namespace Abacus

variable {registry : Registry} {store : Store}

/-! ## Unfinished expressions -/

/-- Finished arguments, with a separator after each of them. -/
def finished (segments : List Segment) : List Token :=
  segments.flatMap fun segment => segment.tokens ++ [Token.comma]

theorem joined_concat (segments : List Segment) (segment : Segment) :
    joined (segments ++ [segment]) = finished segments ++ segment.tokens := by
  match segments with
  | [] =>
    rw [List.nil_append, joined_singleton]
    rfl
  | [first] =>
    rw [List.singleton_append, joined_cons_cons, joined_singleton]
    simp [finished]
  | first :: next :: rest =>
    have ih : joined (next :: (rest ++ [segment])) = finished (next :: rest) ++ segment.tokens :=
      joined_concat (next :: rest) segment
    rw [List.cons_append, List.cons_append, joined_cons_cons, ih]
    simp [finished]

theorem countP_concat (segments : List Segment) (segment : Segment) :
    (segments ++ [segment]).countP Segment.complete =
      segments.countP Segment.complete + segment.complete.toNat := by
  rw [List.countP_append]
  cases h : segment.complete <;> simp [h]

theorem forall_phrase_concat {segments : List Segment} {content : List Token} {complete : Bool}
    (hs : ∀ segment ∈ segments, Phrase registry segment.tokens segment.complete)
    (hi : Phrase registry content complete) :
    ∀ segment ∈ segments ++ [Segment.mk content complete],
      Phrase registry segment.tokens segment.complete :=
  List.forall_mem_append.2 ⟨hs, List.forall_mem_singleton.2 hi⟩

/-- Tokens that begin an expression and what waits after them: outside every scope there is a phrase,
complete or not, and another one inside each scope. The number is that of the operands that belong to
what waits. -/
inductive Unfinished (registry : Registry) : List Token → Bool → List Frame → Nat → Prop where
  | outermost {tokens : List Token} {complete : Bool} (h : Phrase registry tokens complete) :
    Unfinished registry tokens complete [] 0
  | prefixOp {tokens : List Token} {complete : Bool} {op : Operation} {frames : List Frame} {n : Nat}
    (hk : op.kind = .prefixOp) (h : Unfinished registry tokens complete frames n) :
    Unfinished registry tokens complete (⟨op, n⟩ :: frames) n
  | binary {tokens : List Token} {complete : Bool} {op : Operation} {frames : List Frame} {n : Nat}
    (hk : op.kind = .binary) (h : Unfinished registry tokens complete frames n) :
    Unfinished registry tokens complete (⟨op, n + 1⟩ :: frames) (n + 1)
  | group {before content : List Token} {complete : Bool} {opener : String} {op : Operation}
    {frames : List Frame} {n : Nat} (h : Unfinished registry before false frames n)
    (ho : registry.bracket? opener = some op) (hk : op.kind = .openBracket)
    (hi : Phrase registry content complete) :
    Unfinished registry (before ++ ⟨.bracket, opener⟩ :: content) complete (⟨op, n⟩ :: frames) n
  | call {before content : List Token} {complete : Bool} {name : String} {arity : Nat}
    {body : List Float → Except EvalError Float} {segments : List Segment} {frames : List Frame}
    {base : Nat} (h : Unfinished registry before false frames base)
    (hf : registry.find? name .function = some ⟨name, .function arity body⟩)
    (hs : ∀ segment ∈ segments, Phrase registry segment.tokens segment.complete)
    (hi : Phrase registry content complete) :
    Unfinished registry
      (before ++ ⟨.function, name⟩ :: ⟨.bracket, "("⟩ :: (finished segments ++ content)) complete
      (⟨⟨name, .function arity body⟩, base⟩ :: frames) (base + segments.countP Segment.complete)

namespace Unfinished

variable {tokens : List Token} {complete : Bool} {frame : Frame} {frames : List Frame} {n : Nat}

/-- What can be added to a phrase can be added to the innermost one. -/
theorem extend (h : Unfinished registry tokens complete frames n) {more : List Token}
    {complete' : Bool}
    (hp : ∀ xs, Phrase registry xs complete → Phrase registry (xs ++ more) complete') :
    Unfinished registry (tokens ++ more) complete' frames n := by
  induction h with
  | outermost h => exact .outermost (hp _ h)
  | prefixOp hk _ ih => exact .prefixOp hk (ih hp)
  | binary hk _ ih => exact .binary hk (ih hp)
  | group h ho hk hi =>
    rw [List.append_assoc, List.cons_append]
    exact .group h ho hk (hp _ hi)
  | call h hf hs hi =>
    rw [List.append_assoc, List.cons_append, List.cons_append, List.append_assoc]
    exact .call h hf hs (hp _ hi)

/-- The name of a function and the parenthesis after it begin a call. -/
theorem openCall (h : Unfinished registry tokens false frames n) {name : String} {arity : Nat}
    {body : List Float → Except EvalError Float}
    (hf : registry.find? name .function = some ⟨name, .function arity body⟩) :
    Unfinished registry (tokens ++ [⟨.function, name⟩, ⟨.bracket, "("⟩]) false
      (⟨⟨name, .function arity body⟩, n⟩ :: frames) n :=
  have hs : ∀ segment ∈ ([] : List Segment), Phrase registry segment.tokens segment.complete :=
    List.forall_mem_nil _
  h.call hf hs .nil

/-- A separator ends an argument, whether or not an operand is due. -/
theorem separate (h : Unfinished registry tokens complete (frame :: frames) n)
    (hk : frame.operation.kind = .function) :
    Unfinished registry (tokens ++ [Token.comma]) false (frame :: frames) (n + complete.toNat) := by
  cases h with
  | prefixOp h | binary h | group _ _ h => simp [hk] at h
  | @call before content complete name arity body segments frames base h hf hs hi =>
    have hall := forall_phrase_concat hs hi
    have hcall := Unfinished.call h hf hall .nil
    rw [countP_concat, ← Nat.add_assoc] at hcall
    simpa [finished] using hcall

/-- A parenthesis that closes a call with as many operands as its function takes completes an
operand. -/
theorem closeCall (h : Unfinished registry tokens complete (frame :: frames) n)
    (hk : frame.operation.kind = .function)
    (hc : ∀ op, registry.bracket? ")" = some op → op.kind ≠ .openBracket)
    (hd : n + complete.toNat - frame.base = frame.operation.demand) :
    Unfinished registry (tokens ++ [⟨.bracket, ")"⟩]) true frames frame.base := by
  cases h with
  | prefixOp h | binary h | group _ _ h => simp [hk] at h
  | @call before content complete name arity body segments frames base h hf hs hi =>
    have hall := forall_phrase_concat hs hi
    have hcount : (segments ++ [Segment.mk content complete]).countP Segment.complete = arity := by
      have hd : base + segments.countP Segment.complete + complete.toNat - base = arity := hd
      rw [countP_concat]
      dsimp only
      omega
    have hcall := h.extend fun xs hx => hx.call hf hc (by simp) hall hcount
    rw [joined_concat] at hcall
    simpa using hcall

/-- A bracket that closes a group with one operand in it completes an operand. -/
theorem closeGroup (h : Unfinished registry tokens complete (frame :: frames) n)
    (hk : frame.operation.kind = .openBracket) {closer : String} {op : Operation}
    (hc : registry.bracket? closer = some op) (hn : op.opener? = some frame.operation.name)
    (hd : n + complete.toNat - frame.base = 1) :
    Unfinished registry (tokens ++ [⟨.bracket, closer⟩]) true frames frame.base := by
  cases h with
  | prefixOp h | binary h => simp [hk] at h
  | call => cases hk
  | group h ho hk hi =>
    obtain rfl : complete = true := by
      rw [← Bool.toNat_eq_one]
      dsimp only at hd
      omega
    have hgroup := h.extend fun xs hx => hx.group ho hk hc hn hi
    simpa using hgroup

/-- What waits first was met above no more operands than there are. -/
theorem base_le (h : Unfinished registry tokens complete (frame :: frames) n) : frame.base ≤ n := by
  cases h with
  | prefixOp | binary | group => exact Nat.le_refl _
  | call => exact Nat.le_add_right _ _

/-- When a pending operator goes, its operands have made room for one. -/
theorem fire (h : Unfinished registry tokens complete (frame :: frames) n)
    (hs : frame.operation.isScope = false) {w w' : Workspace} (hf : frame.fire w = .ok w')
    {extra : Nat} (hl : w.operands.length = n + extra) :
    ∃ n, Unfinished registry tokens complete frames n ∧ w'.operands.length = n + extra := by
  cases h with
  | prefixOp hk h =>
    have hlen := Frame.length_of_fire_prefixOp hk hf
    exact ⟨n, h, hlen.trans hl⟩
  | @binary _ _ _ _ n hk h =>
    have hlen := Frame.length_of_fire_binary hk hf
    exact ⟨n, h, by omega⟩
  | group _ _ hk => simp [Operation.isScope, hk] at hs
  | call => cases hs

/-- A scope that closes has found above its base what it demands, and leaves one operand there. -/
theorem found (h : Unfinished registry tokens complete (frame :: frames) n)
    (hs : frame.operation.isScope = true) {w w' : Workspace} (hf : frame.fire w = .ok w')
    (hl : w.operands.length = n + complete.toNat) :
    n + complete.toNat - frame.base = frame.operation.demand ∧
      w'.operands.length = frame.base + 1 := by
  have hd := (Frame.fire_eq_ok hf).2 hs
  have hk : frame.operation.kind ≠ .closeBracket := by
    intro hk
    simp [Operation.isScope, hk] at hs
  have hbase : frame.base ≤ w.operands.length := hl ▸ Nat.le_add_right_of_le h.base_le
  exact ⟨hl ▸ hd, Frame.length_of_fire_of_isScope hk hs hbase hf⟩

variable {previous : Reading} {height : Nat}

/-- Where an operand is due, all operands belong to what waits. -/
theorem of_not_completesOperand (h : Unfinished registry tokens previous.completesOperand frames n)
    (hl : height = n + previous.extra) (hp : previous.completesOperand = false) :
    Unfinished registry tokens false frames height := by
  rw [Reading.extra, hp] at hl
  rw [hp] at h
  exact hl ▸ h

/-- Where an operand has been completed, the others belong to what waits. -/
theorem of_completesOperand (h : Unfinished registry tokens previous.completesOperand frames n)
    (hl : height = n + previous.extra) (hp : previous.completesOperand = true) :
    Unfinished registry tokens true frames n ∧ height = n + 1 := by
  rw [Reading.extra, hp] at hl
  rw [hp] at h
  exact ⟨h, hl⟩

end Unfinished

/-! ## Every moment -/

/-- The tokens read so far account for a moment: they are an unfinished expression, with as many
operands as there are, or such an expression and the name of a function, which a parenthesis
follows. -/
inductive Moment.Accounts (registry : Registry) (consumed : List Token) (m : Moment) : Prop where
  | unfinished {n : Nat} (hp : m.run.previous ≠ .function)
    (h : Unfinished registry consumed m.run.previous.completesOperand m.run.frames n)
    (hl : m.run.workspace.operands.length = n + m.run.previous.extra)
  | called {before : List Token} {name : String} {arity : Nat}
    {body : List Float → Except EvalError Float} {frames : List Frame} {token : Token}
    (hp : m.run.previous = .function) (hc : consumed = before ++ [⟨.function, name⟩])
    (hf : registry.find? name .function = some ⟨name, .function arity body⟩)
    (hw : m.run.frames =
      ⟨⟨name, .function arity body⟩, m.run.workspace.operands.length⟩ :: frames)
    (h : Unfinished registry before false frames m.run.workspace.operands.length)
    (hn : m.rest.head? = some token) (ht : token.isSymbol Name.callOpen = true)

/-- What is found as a function is one. -/
theorem Registry.Reachable.exists_function (h : registry.Reachable) {name : String} {op : Operation}
    (hf : registry.find? name .function = some op) :
    ∃ arity body, op = ⟨name, .function arity body⟩ := by
  obtain ⟨rfl, hk, _⟩ := h.find?_eq_some hf
  obtain ⟨name, role⟩ := op
  cases role with
  | function arity body => exact ⟨arity, body, rfl⟩
  | _ => cases hk

namespace Run

variable {run run' : Run} {consumed rest : List Token} {token : Token} {n index : Nat}

/-- A token that is read inside an unfinished expression goes on with it. -/
theorem Reads.accounts (hreach : registry.Reachable)
    (h : run.Reads registry store rest.head? token run') (hspell : token.IsWellSpelled)
    (hp : run.previous ≠ .function)
    (hu : Unfinished registry consumed run.previous.completesOperand run.frames n)
    (hl : run.workspace.operands.length = n + run.previous.extra) :
    Moment.Accounts registry (consumed ++ [token]) ⟨run', index, rest⟩ := by
  cases h with
  | @separator text frame frames hf hk =>
    obtain rfl : text = "," := hspell.separator rfl
    rw [hf] at hu
    refine .unfinished (by simp) (n := n + run.previous.extra) ?_ hl
    show Unfinished registry (consumed ++ [Token.comma]) false run.frames _
    rw [hf]
    exact hu.separate hk
  | literal hfree =>
    have hdue := hu.of_not_completesOperand hl hfree
    exact .unfinished (by simp [pushOperand]) (hdue.extend fun xs hx => hx.literal) rfl
  | var hfree =>
    have hdue := hu.of_not_completesOperand hl hfree
    exact .unfinished (by simp [readVariable]) (hdue.extend fun xs hx => hx.var) rfl
  | function hfree hn ht ho =>
    obtain ⟨arity, body, rfl⟩ := hreach.exists_function ho
    exact .called rfl rfl ho rfl (hu.of_not_completesOperand hl hfree) hn ht
  | callOpen h => exact absurd h hp
  | openBracket hfree _ ho hk =>
    have hdue := hu.of_not_completesOperand hl hfree
    exact .unfinished (by simp [pushFrame]) (hdue.group ho hk .nil) rfl
  | @callClose text frame frames w hclose hf hk ht hw =>
    obtain rfl : text = ")" := Token.text_of_isSymbol ht
    have hc : ∀ op, registry.bracket? ")" = some op → op.kind ≠ .openBracket := fun op ho => by
      simpa [Token.closes, ho, hp] using hclose
    rw [hf] at hu
    obtain ⟨hd, hlen⟩ := hu.found (by simp [Operation.isScope, hk]) hw hl
    exact .unfinished (by simp) (hu.closeCall hk hc hd) hlen
  | @closeBracket text frame frames op w hclose hf hk ho hn hw =>
    rw [hf] at hu
    obtain ⟨hd, hlen⟩ := hu.found (by simp [Operation.isScope, hk]) hw hl
    rw [Operation.demand_of_kind_openBracket hk] at hd
    exact .unfinished (by simp) (hu.closeGroup hk ho hn hd) hlen
  | prefixOp hexpects ho =>
    have hfree := Reading.not_completesOperand_of_expectsOperand hexpects
    have hdue := hu.of_not_completesOperand hl hfree
    exact .unfinished (by simp [pushFrame])
      (.prefixOp (hreach.find?_eq_some ho).2.1 (hdue.extend fun xs hx => hx.prefixOp ho)) rfl
  | @binary name op hdone ho =>
    obtain ⟨hdone, hl⟩ := hu.of_completesOperand hl hdone
    have hnext := hdone.extend fun xs hx => hx.binary ho
    refine .unfinished (by simp [pushFrame]) (n := n + 1) ?_ hl
    show Unfinished registry _ false (⟨op, run.workspace.operands.length⟩ :: run.frames) (n + 1)
    rw [hl]
    exact .binary (hreach.find?_eq_some ho).2.1 hnext
  | @postfixOp name op w hdone hb ho hw =>
    obtain ⟨hdone, hl⟩ := hu.of_completesOperand hl hdone
    have hnext := hdone.extend fun xs hx => hx.postfixOp hb ho
    have hk := (hreach.find?_eq_some ho).2.1
    have hlen := Workspace.length_of_run (by simp [hk]) hw
    rw [Operation.demand_of_kind_postfixOp hk] at hlen
    refine .unfinished (by simp) hnext ?_
    show w.operands.length = n + 1
    omega

/-- Only the parenthesis after it is read after the name of a function. -/
theorem Reads.eq_of_function {token : Token} {next : Option Token}
    (h : run.Reads registry store next token run') (hp : run.previous = .function)
    (ht : token.isSymbol Name.callOpen = true) (hspell : token.IsWellSpelled) :
    token = ⟨.bracket, "("⟩ ∧ run' = { run with previous := .callOpen } := by
  have hk := hspell.bracket ht
  have htext : token.text = "(" := Token.text_of_isSymbol ht
  cases h with
  | callOpen => exact ⟨congrArg (Token.mk .bracket) htext, rfl⟩
  | openBracket _ hc => exact absurd ⟨ht, hp⟩ hc
  | callClose hc | closeBracket hc => simp [Token.closes, ht, hp] at hc
  | _ => cases hk

end Run

/-- A step goes on with the tokens that account for a moment. -/
theorem Moment.Next.accounts (hreach : registry.Reachable) {m m' : Moment}
    (h : Next registry store m m') (hspell : ∀ token ∈ m.rest, token.IsWellSpelled)
    {consumed : List Token} (ha : m.Accounts registry consumed) :
    ∃ more, m.rest = more ++ m'.rest ∧ m'.Accounts registry (consumed ++ more) := by
  cases h with
  | @fire frame frames w w' previous index rest hrel hf =>
    have hs := Operation.not_isScope_of_releases hrel
    refine ⟨[], rfl, ?_⟩
    rw [List.append_nil]
    cases ha with
    | unfinished hp h hl =>
      obtain ⟨n, h, hl⟩ := h.fire hs hf hl
      exact .unfinished hp h hl
    | called _ _ _ hw =>
      rw [(List.cons.inj hw).1] at hs
      cases hs
  | @read run run' index token rest hs hstep =>
    have hreads := Run.step_eq_ok hs hstep
    have hspell := hspell token List.mem_cons_self
    refine ⟨[token], rfl, ?_⟩
    cases ha with
    | unfinished hp h hl => exact hreads.accounts hreach hspell hp h hl
    | @called before name arity body frames next hp hc hf hw h hn ht =>
      obtain rfl : token = next := Option.some.inj hn
      obtain ⟨rfl, rfl⟩ := hreads.eq_of_function hp ht hspell
      refine .unfinished (by simp) (n := run.workspace.operands.length) ?_ rfl
      show Unfinished registry _ false run.frames _
      rw [show run.frames = _ from hw, hc, List.append_assoc]
      exact h.openCall hf

/-- The tokens read so far account for every moment. -/
theorem Reaches.accounts (hreach : registry.Reachable) {tokens : List Token}
    (hspell : ∀ token ∈ tokens, token.IsWellSpelled) {m : Moment}
    (h : Reaches registry store tokens m) :
    ∃ consumed, tokens = consumed ++ m.rest ∧ m.Accounts registry consumed := by
  induction h with
  | refl => exact ⟨[], rfl, .unfinished (by simp [Run.start]) (.outermost .nil) rfl⟩
  | tail _ hn ih =>
    obtain ⟨consumed, rfl, ha⟩ := ih
    obtain ⟨more, hm, ha⟩ := hn.accounts hreach
      (fun token ht => hspell token (List.mem_append_right _ ht)) ha
    exact ⟨consumed ++ more, by rw [hm, List.append_assoc], ha⟩

/-- Tokens that have a value are a complete phrase. -/
theorem phrase_of_runAll (hreach : registry.Reachable) {tokens : List Token}
    (hspell : ∀ token ∈ tokens, token.IsWellSpelled) {value : Float} {bindings : Bindings}
    (h : runAll registry store tokens = .ok (value, bindings)) : Phrase registry tokens true := by
  obtain ⟨operand, previous, index, hm, _⟩ := exists_reaches h
  obtain ⟨consumed, rfl, ha⟩ := hm.accounts hreach hspell
  rw [List.append_nil]
  cases ha with
  | called _ _ _ hw => cases hw
  | unfinished _ h hl =>
    cases h with
    | outermost h =>
      have hc : previous.completesOperand = true := by
        rw [← Bool.toNat_eq_one]
        exact (Nat.zero_add _).symm.trans hl.symm
      exact hc ▸ h

/-! ## Texts -/

/-- A text that has a value is read as tokens that have one. -/
theorem exists_tokenize {text : String} {value : Float}
    (h : (evaluate registry store text).result = .ok value) :
    ∃ tokens bindings, tokenize registry text = .ok tokens ∧
      runAll registry store tokens = .ok (value, bindings) := by
  cases ht : tokenize registry text with
  | error error =>
    rw [evaluate_of_lex_error ht] at h
    cases h
  | ok tokens =>
    rw [evaluate_of_tokenize ht] at h
    obtain ⟨bindings, hr⟩ := exists_runAll h
    exact ⟨tokens, bindings, rfl, hr⟩

/-- In a text that has a value, phrases in parentheses follow the name of every function, and as many
of them are complete as the function takes arguments. The call is well formed exactly if none of them
is incomplete, or there is nothing at all between the parentheses. -/
theorem hasArguments_of_evaluate (hreach : registry.Reachable) {text : String} {value : Float}
    (h : (evaluate registry store text).result = .ok value) :
    ∃ tokens, tokenize registry text = .ok tokens ∧
      ∀ before name after, tokens = before ++ ⟨.function, name⟩ :: after →
        ∃ segments, HasArguments registry name after segments ∧
          (IsWellFormed registry name after ↔
            segments = [⟨[], false⟩] ∨ ∀ segment ∈ segments, segment.complete = true) := by
  obtain ⟨tokens, bindings, ht, hr⟩ := exists_tokenize h
  refine ⟨tokens, ht, fun before name after he => ?_⟩
  have hphrase := phrase_of_runAll hreach (isWellSpelled_of_tokenize hreach ht) hr
  obtain ⟨segments, hs⟩ := hphrase.callsHaveArguments before name after he
  exact ⟨segments, hs, hs.isWellFormed_iff⟩

/-- The two arguments of `max(1, 2)`. -/
theorem hasArguments_max :
    ∃ tokens, tokenize Library.registry "max(1, 2)" = .ok tokens ∧
      ∀ before name after, tokens = before ++ ⟨.function, name⟩ :: after →
        ∃ segments, HasArguments Library.registry name after segments ∧
          (IsWellFormed Library.registry name after ↔
            segments = [⟨[], false⟩] ∨ ∀ segment ∈ segments, segment.complete = true) :=
  @hasArguments_of_evaluate _ ∅ Library.reachable_registry _ 2 (by decide +kernel)

/-- The value of `sqrt(,4)` is two, although nothing stands before the separator. -/
theorem not_isWellFormed_sqrt :
    (evaluate Library.registry ∅ "sqrt(,4)").result = .ok 2 ∧
      ∃ after, tokenize Library.registry "sqrt(,4)" = .ok (⟨.function, "sqrt"⟩ :: after) ∧
        ¬IsWellFormed Library.registry "sqrt" after := by
  have hclose : Token.opens Library.registry false ⟨.bracket, ")"⟩ = false := by
    refine Token.opens_callClose fun op ho => ?_
    rw [Registry.bracket?, Library.find?_registry, Library.find?_registry] at ho
    cases ho
    decide
  have harguments : HasArguments Library.registry "sqrt"
      [⟨.bracket, "("⟩, Token.comma, ⟨.literal, "4"⟩, ⟨.bracket, ")"⟩]
      [⟨[], false⟩, ⟨[⟨.literal, "4"⟩], true⟩] := by
    refine ⟨hclose, by simp, ?_, ?_, [], rfl⟩
    · exact List.forall_mem_cons.2 ⟨.nil, List.forall_mem_singleton.2 Phrase.nil.literal⟩
    · rw [Registry.arity?, Library.find?_registry]
      rfl
  have hvalue : (evaluate Library.registry ∅ "sqrt(,4)").result = .ok 2 ∧
      tokenize Library.registry "sqrt(,4)" = .ok [⟨.function, "sqrt"⟩, ⟨.bracket, "("⟩, Token.comma,
        ⟨.literal, "4"⟩, ⟨.bracket, ")"⟩] := by
    decide +kernel
  refine ⟨hvalue.1, _, hvalue.2, harguments.isWellFormed_iff.not.2 ?_⟩
  simp

end Abacus
