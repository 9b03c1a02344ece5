import Abacus.Proofs.Evaluation.Failure
import Abacus.Proofs.Library.Registered
import Abacus.Proofs.Token.Known

/-!
# Recognising what a text names

Reading a text and evaluating its tokens agree on every name (`evaluate_agrees_with_tokenize`). The
tokens are known where the evaluation looks for them. So the evaluation has no lexical error of its own,
and it finds every operator that it does not know among the operators of the text.

The action of an operation may fail with any error, also with one about a spelling, and then reading
and evaluating do not agree. Such an error is told apart by the moment at which it comes up (`Throws`):
the step that fails there applies an operation, and applying the operation fails with it. Quiet
operations, as all bundled ones are, have no such errors (`not_throws_of_isQuiet`).

* `isOperator_or_throws_of_runAll`: the errors about a spelling that known tokens may lead to.
-/

namespace Abacus

variable {registry : Registry} {store : Store} {tokens : List Token} {error : EvalError}

/-- The evaluation of some tokens fails with an error that applying an operation has. -/
def Throws (registry : Registry) (store : Store) (tokens : List Token) (error : EvalError) : Prop :=
  ∃ m, Reaches registry store tokens m ∧ m.Fails registry store error ∧ m.Throws registry error

theorem Throws.runAll_eq_error (h : Throws registry store tokens error) :
    runAll registry store tokens = .error error := by
  obtain ⟨m, hreach, hfails, -⟩ := h
  exact runAll_eq_error_iff.2 ⟨m, hreach, hfails⟩

/-- Quiet operations have no errors about a spelling. -/
theorem not_throws_of_isQuiet (hq : registry.IsQuiet) (hs : error.isSpelling = true) :
    ¬Throws registry store tokens error := by
  rintro ⟨m, hreach, -, op, enclosing, taken, hexecutes, hrun⟩
  have hquiet : op.IsQuiet := by
    cases hexecutes with
    | pending | close => exact hreach.forall_frames hq _ List.mem_cons_self
    | postfixOp _ _ ho => exact hq _ _ _ ho
  have hnot : error.isSpelling = false := hquiet error (Workspace.raises_of_run hs hrun)
  rw [hs] at hnot
  cases hnot

/-- An error about a spelling that known tokens lead to names one of the operators, or it is raised
when an operation is applied. -/
theorem isOperator_or_throws_of_runAll (hk : ∀ token ∈ tokens, token.IsKnown registry)
    (hs : error.isSpelling = true) (h : runAll registry store tokens = .error error) :
    (∃ name, error = .unknownOperator name ∧ ⟨.operator, name⟩ ∈ tokens) ∨
      Throws registry store tokens error := by
  obtain ⟨m, hreach, hfails⟩ := runAll_eq_error_iff.1 h
  have hmem : ∀ token ∈ m.rest, token ∈ tokens := fun _ hm => hreach.rest_suffix.mem hm
  cases hfails.rejects hs with
  | literal hv =>
    obtain ⟨value, hvalue, -⟩ := (hk _ (hmem _ List.mem_cons_self)).found
    rw [hv] at hvalue
    cases hvalue
  | function ho =>
    obtain ⟨op, hop⟩ := (hk _ (hmem _ List.mem_cons_self)).found
    rw [ho] at hop
    cases hop
  | @operator _ _ name => exact .inl ⟨name, rfl, hmem _ List.mem_cons_self⟩
  | thrown ht => exact .inr ⟨m, hreach, hfails, ht⟩

/-- A lexical error of an evaluation is that of reading the text, or applying an operation has it. -/
theorem evaluate_eq_lex_iff (h : registry.Reachable) {text : String} {error : LexError} :
    (evaluate registry store text).result = .error (.lex error) ↔
      tokenize registry text = .error error ∨
        ∃ tokens, tokenize registry text = .ok tokens ∧
          Throws registry store tokens (.lex error) := by
  cases ht : tokenize registry text with
  | error other =>
    rw [evaluate_of_lex_error ht]
    simp
  | ok tokens =>
    rw [evaluate_of_tokenize ht, result_eq_error_iff]
    constructor
    · intro hr
      rcases isOperator_or_throws_of_runAll (isKnown_of_tokenize h ht) rfl hr with ⟨_, he, _⟩ | hthrows
      · cases he
      · exact .inr ⟨tokens, rfl, hthrows⟩
    · rintro (ht | ⟨_, ⟨⟩, hthrows⟩)
      · cases ht
      · exact hthrows.runAll_eq_error

/-- An unknown operator of an evaluation is one of the operators of the text, or applying an operation
has named it. -/
theorem exists_of_evaluate_eq_unknownOperator (h : registry.Reachable) {text name : String}
    (he : (evaluate registry store text).result = .error (.unknownOperator name)) :
    ∃ tokens, tokenize registry text = .ok tokens ∧
      (⟨.operator, name⟩ ∈ tokens ∨ Throws registry store tokens (.unknownOperator name)) := by
  cases ht : tokenize registry text with
  | error other =>
    rw [evaluate_of_lex_error ht] at he
    cases he
  | ok tokens =>
    rw [evaluate_of_tokenize ht, result_eq_error_iff] at he
    refine ⟨tokens, rfl, ?_⟩
    rcases isOperator_or_throws_of_runAll (isKnown_of_tokenize h ht) rfl he with ⟨_, ⟨⟩, hm⟩ | hthrows
    · exact .inl hm
    · exact .inr hthrows

/-- Reading a text and evaluating it agree on every name. What the text is cut into is found where the
evaluation looks for it. A lexical error of the evaluation is that of reading the text, and an unknown
operator is one of its operators, unless an operation that is applied fails with such an error on its
own account. No quiet operation does. -/
theorem evaluate_agrees_with_tokenize (h : registry.Reachable) (store : Store) (text : String) :
    (∀ tokens, tokenize registry text = .ok tokens → ∀ token ∈ tokens, token.IsKnown registry) ∧
    (∀ error, (evaluate registry store text).result = .error (.lex error) ↔
      tokenize registry text = .error error ∨
        ∃ tokens, tokenize registry text = .ok tokens ∧
          Throws registry store tokens (.lex error)) ∧
    (∀ name, (evaluate registry store text).result = .error (.unknownOperator name) →
      ∃ tokens, tokenize registry text = .ok tokens ∧
        (⟨.operator, name⟩ ∈ tokens ∨ Throws registry store tokens (.unknownOperator name))) ∧
    (registry.IsQuiet →
      (∀ error, (evaluate registry store text).result = .error (.lex error) ↔
        tokenize registry text = .error error) ∧
      ∀ name, (evaluate registry store text).result = .error (.unknownOperator name) →
        ∃ tokens, tokenize registry text = .ok tokens ∧ ⟨.operator, name⟩ ∈ tokens) := by
  refine ⟨fun tokens => isKnown_of_tokenize h, fun error => evaluate_eq_lex_iff h,
    fun name => exists_of_evaluate_eq_unknownOperator h, fun hq => ⟨fun error => ?_, fun name he => ?_⟩⟩
  · rw [evaluate_eq_lex_iff h]
    refine or_iff_left ?_
    rintro ⟨tokens, -, hthrows⟩
    exact not_throws_of_isQuiet hq rfl hthrows
  · obtain ⟨tokens, ht, hm | hthrows⟩ := exists_of_evaluate_eq_unknownOperator h he
    · exact ⟨tokens, ht, hm⟩
    · exact absurd hthrows (not_throws_of_isQuiet hq rfl)

/-- With the bundled operations: the tokens of `max(x,1)`, a text that cannot be read, and a text in which
no operand precedes `*`. -/
theorem evaluate_agrees_with_tokenize_sample :
    (∀ token ∈ [Token.mk .function "max", ⟨.bracket, "("⟩, ⟨.var, "x"⟩, ⟨.separator, ","⟩,
      ⟨.literal, "1"⟩, ⟨.bracket, ")"⟩], token.IsKnown Library.registry) ∧
    (evaluate Library.registry ∅ "1 + é").result = .error (.lex (.unknownIdentifier 4 "é")) ∧
    ∃ tokens, tokenize Library.registry "3 + * 2" = .ok tokens ∧ ⟨.operator, "*"⟩ ∈ tokens := by
  have hagrees := evaluate_agrees_with_tokenize Library.reachable_registry ∅
  refine ⟨?_, ?_, ?_⟩
  · exact (hagrees "max(x,1)").1 _ (by decide +kernel)
  · exact ((hagrees "1 + é").2.1 _).2 (.inl (by decide +kernel))
  · exact ((hagrees "3 + * 2").2.2.2 Library.isQuiet_registry).2 "*" (by decide +kernel)

/-- With operations that are not quiet, a text that can be read has a lexical error, and an operator is
unknown that the text does not have. -/
theorem evaluate_disagrees_with_tokenize :
    let registry := ((∅ : Registry).load
      [⟨"f", .function 0 fun _ => .error (.lex (.malformedLiteral 7 "x"))⟩,
        ⟨"g", .function 0 fun _ => .error (.unknownOperator "y")⟩]).1
    registry.Reachable ∧
      ¬(∀ error, (evaluate registry ∅ "f()").result = .error (.lex error) ↔
        tokenize registry "f()" = .error error) ∧
      ¬(∀ name, (evaluate registry ∅ "g()").result = .error (.unknownOperator name) →
        ∃ tokens, tokenize registry "g()" = .ok tokens ∧ ⟨.operator, name⟩ ∈ tokens) := by
  intro registry
  have hcall : tokenize registry "g()" = .ok [⟨.function, "g"⟩, ⟨.bracket, "("⟩, ⟨.bracket, ")"⟩] := by
    decide +kernel
  refine ⟨Registry.Reachable.empty.load _, fun h => ?_, fun h => ?_⟩
  · exact absurd ((h (.malformedLiteral 7 "x")).1 (by decide +kernel)) (by decide +kernel)
  · obtain ⟨tokens, ht, hm⟩ := h "y" (by decide +kernel)
    obtain rfl := Except.ok.inj (ht.symm.trans hcall)
    exact absurd hm (by decide)

end Abacus
