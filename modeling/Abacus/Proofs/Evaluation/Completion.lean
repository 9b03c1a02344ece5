import Mathlib.Data.List.Chain
import Mathlib.Data.List.Forall2
import Abacus.Proofs.Evaluation.Height
import Abacus.Proofs.Expression.Phrase
import Abacus.Proofs.Library.Registered

/-!
# Complete expressions

Nothing looks at the last token when a group is closed or the tokens end. The operands are counted, and
there is one for each that waits, and one more, exactly when an operand has just been completed
(`Run.Balanced`). So the last reading of an expression that has a value completes an operand, and so
does the reading before each bracket that closes a group (`completesOperand_of_evaluateTokens`).

* `Run.exists_reads`: a token is read after the operations that it lets go;
* `Run.Reads.completesOperand`: a group is closed after an operand;
* `readingsFrom_of_runTokens`: what holds of the readings of a run over tokens;
* `Run.Balanced.completesOperand`: the tokens end after an operand.
-/

namespace Abacus

/-! ## Readings of tokens -/

/-- What a run reads tokens as, up to the first that it cannot read. -/
def readingsFrom (registry : Registry) (store : Store) (run : Run) (index : Nat) :
    List Token → List Reading
  | [] => []
  | token :: tokens =>
    match run.step registry store index token tokens.head? with
    | .ok run => run.previous :: readingsFrom registry store run (index + 1) tokens
    | .error _ => []

/-- What an evaluation reads tokens as, up to the first that it cannot read. -/
def readings (registry : Registry) (store : Store) (tokens : List Token) : List Reading :=
  readingsFrom registry store .start 0 tokens

/-- Whether a token is of the kind that a reading is for, and has the meaning in the registry that the
reading gives it. -/
def Reading.Fits (registry : Registry) (token : Token) : Reading → Prop
  | .literal => token.kind = .literal
  | .var => token.kind = .var
  | .prefixOp => token.kind = .operator ∧ (registry.find? token.text .prefixOp).isSome = true
  | .postfixOp =>
    token.kind = .operator ∧ registry.find? token.text .binary = none ∧
      (registry.find? token.text .postfixOp).isSome = true
  | .binary => token.kind = .operator ∧ (registry.find? token.text .binary).isSome = true
  | .function => token.kind = .function ∧ registry.isFunction token.text = true
  | .openBracket =>
    token.kind = .bracket ∧ ∃ op, registry.bracket? token.text = some op ∧ op.kind = .openBracket
  | .closeBracket =>
    token.kind = .bracket ∧ ∃ op, registry.bracket? token.text = some op ∧ op.kind = .closeBracket
  | .separator => token.kind = .separator
  | .callOpen => token.kind = .bracket ∧ token.isSymbol Name.callOpen = true
  | .callClose => token.kind = .bracket ∧ token.isSymbol Name.callClose = true

variable {registry : Registry} {store : Store} {run run' : Run} {index : Nat} {token : Token}
  {tokens : List Token} {next : Option Token}

theorem readingsFrom_cons (h : run.step registry store index token tokens.head? = .ok run') :
    readingsFrom registry store run index (token :: tokens) =
      run'.previous :: readingsFrom registry store run' (index + 1) tokens := by
  rw [readingsFrom, h]

/-! ## Reading one token -/

namespace Run

/-- A token that is read fits its reading. -/
theorem Reads.fits (h : run.Reads registry store next token run') :
    run'.previous.Fits registry token := by
  cases h with
  | separator | literal | var => rfl
  | function _ _ _ ho => exact ⟨rfl, Option.isSome_iff_exists.2 ⟨_, ho⟩⟩
  | callOpen _ ht | callClose _ _ _ ht => exact ⟨rfl, ht⟩
  | openBracket _ _ ho hk => exact ⟨rfl, _, ho, hk⟩
  | closeBracket _ _ _ ho hn => exact ⟨rfl, _, ho, Operation.kind_of_opener? hn⟩
  | prefixOp _ ho | binary _ ho => exact ⟨rfl, Option.isSome_iff_exists.2 ⟨_, ho⟩⟩
  | postfixOp _ hb ho => exact ⟨rfl, hb, Option.isSome_iff_exists.2 ⟨_, ho⟩⟩

/-- A token is read after the operations that it lets go, which leave the last reading and the balance of
the operands as they are. -/
theorem exists_reads (hb : run.Balanced)
    (h : run.step registry store index token next = .ok run') :
    ∃ settled : Run, settled.previous = run.previous ∧ settled.Balanced ∧
      settled.Reads registry store next token run' := by
  obtain ⟨frames, w, previous⟩ := run
  induction frames generalizing w with
  | nil => exact ⟨_, rfl, hb, step_eq_ok (by simp) h⟩
  | cons frame frames ih =>
    cases hr : releases registry previous (some token) frame.operation with
    | false => exact ⟨_, rfl, hb, step_eq_ok (by simpa using hr) h⟩
    | true =>
      rw [step_of_releases hr] at h
      obtain ⟨w', hf, h⟩ := bind_eq_ok.1 h
      exact ih w' (hb.fire (Operation.not_isScope_of_releases hr) hf) h

/-- A group is closed after an operand: the one operand that it has to hold is above those that were
there before. -/
theorem Reads.completesOperand (h : run.Reads registry store next token run') (hb : run.Balanced)
    (hc : run'.previous = .closeBracket) : run.previous.completesOperand = true := by
  cases h with
  | @closeBracket text frame frames op w hcloses hf hk ho hn hw =>
    obtain ⟨n, hr, hl⟩ := hb
    have hbase : Rests run.frames n → frame.base = n := fun hr => by
      rw [hf] at hr
      cases hr with
      | openBracket => rfl
      | prefixOp h | binary h | function h => simp [hk] at h
    have hfound := (Frame.fire_eq_ok hw).2 (by simp [Operation.isScope, hk])
    rw [hbase hr, Operation.demand_of_kind_openBracket hk, hl, Nat.add_sub_cancel_left] at hfound
    exact Bool.toNat_eq_one.1 hfound
  | _ => cases hc

/-! ## The end of the tokens -/

/-- Ending a run with a value lets all that waits go, and one operand is left, which has the value. -/
theorem unwindScope_of_finish {value : Float} {bindings : Bindings}
    (h : run.finish = .ok (value, bindings)) :
    ∃ operand, run.unwindScope = .ok ⟨[], ⟨[operand], bindings⟩, run.previous⟩ ∧
      bindings.value operand = .ok value := by
  obtain ⟨⟨frames, w, previous⟩, hu, hend⟩ := bind_eq_ok.1 h
  have hprevious : previous = run.previous := by
    obtain ⟨_, _, hu⟩ := bind_eq_ok.1 hu
    exact (congrArg Run.previous (Except.ok.inj hu)).symm
  split at hend
  · split at hend <;> cases hend
  · rename_i hf
    split at hend
    · rename_i operand ho
      obtain ⟨v, hv, hend⟩ := bind_eq_ok.1 hend
      obtain ⟨rfl, rfl⟩ := Prod.mk.inj (Except.ok.inj hend)
      obtain ⟨operands, bindings⟩ := w
      obtain rfl : frames = [] := hf
      obtain rfl : operands = [operand] := ho
      exact ⟨operand, by rw [hu, hprevious], hv⟩
    · cases hend

/-- When pending operators go, their operands have made room for one each. -/
theorem Balanced.unwindScope (hb : run.Balanced) (h : run.unwindScope = .ok run') :
    run'.Balanced := by
  obtain ⟨frames, w, previous⟩ := run
  induction frames generalizing w with
  | nil =>
    rw [unwindScope_of_head (by simp)] at h
    exact Except.ok.inj h ▸ hb
  | cons frame frames ih =>
    cases hs : frame.operation.isScope with
    | true =>
      rw [unwindScope_of_head (by rintro _ ⟨⟩; exact hs)] at h
      exact Except.ok.inj h ▸ hb
    | false =>
      rw [unwindScope_cons hs] at h
      obtain ⟨w', hf, h⟩ := bind_eq_ok.1 h
      exact ih w' (hb.fire hs hf) h

/-- The tokens end after an operand: nothing waits for the one operand that is left. -/
theorem Balanced.completesOperand (hb : run.Balanced) {value : Float} {bindings : Bindings}
    (h : run.finish = .ok (value, bindings)) : run.previous.completesOperand = true := by
  obtain ⟨operand, hu, -⟩ := unwindScope_of_finish h
  obtain ⟨n, hr, hl⟩ := hb.unwindScope hu
  cases hr with
  | nil => exact Bool.toNat_eq_one.1 ((Nat.zero_add _).symm.trans hl.symm)

end Run

/-! ## Reading all tokens -/

/-- The readings of a run over tokens: there is one for each token, which fits it, and the run knows the
last one. Whatever is directly followed by the end of a group completes an operand. -/
theorem readingsFrom_of_runTokens (hreach : registry.Reachable) (hb : run.Balanced)
    (h : runTokens registry store run index tokens = .ok run') :
    run'.Balanced ∧
      List.Forall₂ (Reading.Fits registry) tokens (readingsFrom registry store run index tokens) ∧
      (run.previous :: readingsFrom registry store run index tokens).getLast? = some run'.previous ∧
      (run.previous :: readingsFrom registry store run index tokens).IsChain fun before reading =>
        reading = .closeBracket → before.completesOperand = true := by
  induction tokens generalizing run index with
  | nil =>
    obtain rfl := Except.ok.inj h
    exact ⟨hb, .nil, rfl, List.isChain_singleton _⟩
  | cons token tokens ih =>
    rw [runTokens_cons] at h
    obtain ⟨middle, hs, h⟩ := bind_eq_ok.1 h
    obtain ⟨settled, hp, hsettled, hreads⟩ := Run.exists_reads hb hs
    obtain ⟨hb', hfits, hlast, hchain⟩ := ih (hreads.balanced hreach hsettled) h
    rw [readingsFrom_cons hs, List.getLast?_cons_cons, List.isChain_cons_cons]
    exact ⟨hb', .cons hreads.fits hfits, hlast,
      fun hc => hp ▸ hreads.completesOperand hsettled hc, hchain⟩

/-- Incomplete expressions and groups have no value. When tokens have a value, each of them is read as
something that fits it. The last reading completes an operand: it is a number, a variable, a postfix
operator, or the end of a group or a call. So does the reading right before the end of each group. -/
theorem completesOperand_of_evaluateTokens (hreach : registry.Reachable) {value : Float}
    (h : (evaluateTokens registry store tokens).result = .ok value) :
    List.Forall₂ (Reading.Fits registry) tokens (readings registry store tokens) ∧
    (∃ before last, readings registry store tokens = before ++ [last] ∧
      last.completesOperand = true) ∧
    ∀ before after, readings registry store tokens = before ++ .closeBracket :: after →
      ∃ outside last, before = outside ++ [last] ∧ last.completesOperand = true := by
  obtain ⟨bindings, hr⟩ := exists_runAll h
  obtain ⟨run, hrun, hfinish⟩ := bind_eq_ok.1 hr
  obtain ⟨hb, hfits, hlast, hchain⟩ := readingsFrom_of_runTokens hreach .start hrun
  have hcompletes := hb.completesOperand hfinish
  have hreadings : readingsFrom registry store .start 0 tokens = readings registry store tokens := rfl
  rw [hreadings] at hlast hchain
  refine ⟨hfits, ?_, fun before after he => ?_⟩
  · rcases List.eq_nil_or_concat' (readings registry store tokens) with he | ⟨before, last, he⟩
    · rw [he, List.getLast?_singleton, Option.some_inj] at hlast
      rw [← hlast] at hcompletes
      cases hcompletes
    · rw [he, ← List.cons_append, List.getLast?_concat, Option.some_inj] at hlast
      exact ⟨before, last, he, hlast ▸ hcompletes⟩
  · rw [he] at hchain
    rcases List.eq_nil_or_concat' before with rfl | ⟨outside, last, rfl⟩
    · exact absurd ((List.isChain_cons_cons.1 hchain).1 rfl) (by decide)
    · rw [List.append_assoc, ← List.cons_append, List.singleton_append,
        List.isChain_append_cons_cons] at hchain
      exact ⟨outside, last, rfl, hchain.2.1 rfl⟩

/-- In `(-1)*max(2,3)` the group is closed after a number, and the call completes the expression. -/
theorem completesOperand_sample :
    let tokens : List Token := [⟨.bracket, "("⟩, ⟨.operator, "-"⟩, ⟨.literal, "1"⟩, ⟨.bracket, ")"⟩,
      ⟨.operator, "*"⟩, ⟨.function, "max"⟩, ⟨.bracket, "("⟩, ⟨.literal, "2"⟩, ⟨.separator, ","⟩,
      ⟨.literal, "3"⟩, ⟨.bracket, ")"⟩]
    readings Library.registry ∅ tokens =
        [.openBracket, .prefixOp, .literal] ++ .closeBracket ::
          [.binary, .function, .callOpen, .literal, .separator, .literal, .callClose] ∧
      (∃ before last, readings Library.registry ∅ tokens = before ++ [last] ∧
        last.completesOperand = true) ∧
      ∃ outside last, [Reading.openBracket, .prefixOp, .literal] = outside ++ [last] ∧
        last.completesOperand = true := by
  intro tokens
  obtain ⟨hvalue, hreadings⟩ : (evaluateTokens Library.registry ∅ tokens).result = .ok (-3) ∧
      readings Library.registry ∅ tokens =
        [.openBracket, .prefixOp, .literal] ++ .closeBracket ::
          [.binary, .function, .callOpen, .literal, .separator, .literal, .callClose] := by
    decide +kernel
  obtain ⟨-, hlast, hgroups⟩ := completesOperand_of_evaluateTokens Library.reachable_registry hvalue
  exact ⟨hreadings, hlast, hgroups _ _ hreadings⟩

end Abacus
