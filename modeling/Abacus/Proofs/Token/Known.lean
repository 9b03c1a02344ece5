import Abacus.Proofs.Token.RoundTrip

/-!
# Tokens that are known

Reading a text decides what each of its tokens is, and evaluating looks the token up again by its
kind. Both go by the same names: what a text is cut into is found where an evaluation looks for it
(`isKnown_of_tokenize`). A function is registered as one, and an operator as one of the three kinds. A
bracket is registered as well, unless it is a parenthesis, which may be that of a call. A numeral has a
finite value, and a variable has a name that nothing else has.

* `isKnown_of_classify?`: a name is what it is classified as.
-/

namespace Abacus

/-- Whether an evaluation finds what a token says that it is. -/
def Token.IsFound (registry : Registry) : Token → Prop
  | ⟨.separator, _⟩ => True
  | ⟨.literal, text⟩ => ∃ value, Number.read? text.toList = some value ∧ value.isFinite = true
  | ⟨.function, name⟩ => ∃ op, registry.find? name .function = some op
  | ⟨.operator, name⟩ =>
    ∃ kind ∈ [Kind.prefixOp, .binary, .postfixOp], ∃ op, registry.find? name kind = some op
  | ⟨.bracket, name⟩ => name = "(" ∨ name = ")" ∨ ∃ op, registry.bracket? name = some op
  | ⟨.var, name⟩ => Name.isVariable name = true ∧ registry.contains name = false

/-- Whether an evaluation finds a token, and finds it as a bracket if it is a parenthesis. -/
structure Token.IsKnown (registry : Registry) (token : Token) : Prop where
  found : token.IsFound registry
  parenthesis : token.kind ≠ .bracket → token.text ≠ "(" ∧ token.text ≠ ")"

variable {registry : Registry} {text : String}

theorem isCallSymbol_iff : isCallSymbol text.toList = true ↔ text = "(" ∨ text = ")" := by
  simp only [isCallSymbol, decide_eq_true_eq, ← String.toList_inj]
  rfl

/-- What is read as a name is registered as what it is classified as, or it is a parenthesis, or the
name of a variable that is not registered at all. -/
theorem isKnown_of_classify? (h : registry.Reachable) {kind : TokenKind}
    (hk : classify? registry text.toList = some kind) : Token.IsKnown registry ⟨kind, text⟩ := by
  have hparenthesis : kind ≠ .bracket → text ≠ "(" ∧ text ≠ ")" := by
    intro hne
    rw [← not_or, ← isCallSymbol_iff]
    intro hc
    rw [classify?_of_isCallSymbol h hc] at hk
    exact hne (Option.some.inj hk).symm
  refine ⟨?_, hparenthesis⟩
  simp only [classify?, String.ofList_toList] at hk
  split at hk
  · rename_i hf
    obtain rfl := Option.some.inj hk
    exact Option.isSome_iff_exists.1 hf
  split at hk
  · rename_i ho
    obtain rfl := Option.some.inj hk
    simp only [Registry.isOperator, Bool.or_eq_true, Option.isSome_iff_exists] at ho
    rcases ho with (ho | ho) | ho
    · exact ⟨.binary, by decide, ho⟩
    · exact ⟨.prefixOp, by decide, ho⟩
    · exact ⟨.postfixOp, by decide, ho⟩
  split at hk
  · rename_i hb
    obtain rfl := Option.some.inj hk
    rcases hb with hb | hb
    · exact (isCallSymbol_iff.1 hb).imp_right .inl
    · exact .inr (.inr (Option.isSome_iff_exists.1 hb))
  split at hk
  · rename_i hf ho hb hv
    obtain rfl := Option.some.inj hk
    refine ⟨hv, ?_⟩
    simp only [not_or, Bool.not_eq_true] at hf ho hb
    simp only [Registry.contains, hf, ho, hb.2, Bool.or_false]
  · cases hk

/-- The tokens that a text can be cut into are known. -/
theorem Token.IsLexical.isKnown (h : registry.Reachable) {token : Token}
    (ht : token.IsLexical registry) : token.IsKnown registry := by
  cases ht with
  | separator => exact ⟨trivial, fun _ => by decide⟩
  | @literal text value hn hv hf =>
    refine ⟨⟨value, hv, hf⟩, fun _ => ?_⟩
    -- A numeral begins with a digit.
    obtain ⟨c, cs, htext, hc⟩ := hn.exists_cons
    refine ⟨?_, ?_⟩ <;>
    · rintro rfl
      obtain ⟨rfl, -⟩ := List.cons.inj htext
      exact absurd hc (by decide)
  | name _ hk => exact isKnown_of_classify? h hk

/-- What a text is cut into is found where an evaluation looks for it. -/
theorem isKnown_of_tokenize (h : registry.Reachable) {tokens : List Token}
    (ht : tokenize registry text = .ok tokens) : ∀ token ∈ tokens, token.IsKnown registry :=
  fun token hm => (isLexical_of_tokenize h ht token hm).isKnown h

end Abacus
