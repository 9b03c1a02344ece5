import Abacus.Proofs.Evaluation.Unwinding
import Abacus.Proofs.Library.Registered
import Abacus.Proofs.Number.Value
import Abacus.Proofs.Token.Coverage

/-!
# Numerals are read exactly

Where a text has a digit, the longest numeral there is the next token, and reading goes on behind it
(`ReadsNumeral`). The one exception is a numeral whose value is not finite: it is rounded to infinity, and
the text has an error there. No other numeral has an error (`tokenize_literal`). A text that is one numeral
with a finite value has that value.

* `lexeme_of_isFinite`, `lexeme_of_not_isFinite`: the two cases at one place.
-/

namespace Abacus

open Text

/-- Whether a text is read exactly where a digit comes next. Before the place are tokens. The rest begins
with a longest numeral, which has a value. The value is finite unless the numeral denotes a number that is
too large. If it is finite, then the numeral is the next token, and what comes of the text is the tokens
up to and with this one, and what comes of the text behind it. If it is not finite, then the text has an
error at the place. -/
structure ReadsNumeral (registry : Registry) (text : String) (before : List Char) (tokens : List Token)
    (rest numeral after : List Char) (value : Float) : Prop where
  rest_eq : rest = numeral ++ after
  isLongestNumeral : Number.IsLongestNumeral numeral rest
  isValue : Number.IsValue numeral value
  isFinite_iff : ∀ number, Number.Denotes numeral number →
    (value.isFinite = true ↔ number < Number.overflow)
  cursor : value.isFinite = true →
    Cursor registry 0 text.toList (before ++ numeral) (tokens ++ [⟨.literal, .ofList numeral⟩]) after
  tokenize_eq : value.isFinite = true → tokenize registry text =
    (scan registry (byteLength (before ++ numeral)) after).map
      (tokens ++ [⟨.literal, .ofList numeral⟩] ++ ·)
  error_eq : value.isFinite = false → tokenize registry text =
    .error (.malformedLiteral (byteLength before) (.ofList (word rest)))

variable {registry : Registry} {position : Nat} {c : Char} {cs before rest : List Char}
  {tokens : List Token} {text : String} {x : Float}

/-! ## At one place -/

/-- A numeral with a finite value is read. -/
theorem numeral?_of_isFinite (hx : Number.IsValue (Number.lexeme cs) x) (hf : x.isFinite = true) :
    numeral? cs = some ((Number.lexeme cs).length - 1) := by
  simp only [numeral?, hx.read?_eq, hf, if_true]

/-- Where there is a digit, the token is the longest numeral, if its value is finite. -/
theorem lexeme_of_isFinite (hc : c.isDigit = true) (hx : Number.IsValue (Number.lexeme (c :: cs)) x)
    (hf : x.isFinite = true) :
    lexeme registry position c cs = .ok (.literal, (Number.lexeme (c :: cs)).length - 1) := by
  simp only [lexeme, ne_separator_of_isDigit hc, hc, if_false, if_true, numeral?_of_isFinite hx hf]

/-- Where there is a digit, there is no token if the value of the longest numeral is not finite. -/
theorem lexeme_of_not_isFinite (hc : c.isDigit = true) (hx : Number.IsValue (Number.lexeme (c :: cs)) x)
    (hf : x.isFinite = false) :
    lexeme registry position c cs = .error (.malformedLiteral position (.ofList (word (c :: cs)))) := by
  have hnone : numeral? (c :: cs) = none := by
    simp only [numeral?, hx.read?_eq, hf, Bool.false_eq_true, if_false]
  refine lexeme_eq_error_iff.2 ⟨ne_separator_of_isDigit hc, ?_⟩
  rw [if_pos hc]
  exact ⟨hnone, rfl⟩

/-- The numeral at a place is read exactly. -/
theorem Cursor.exists_readsNumeral (h : Cursor registry 0 text.toList before tokens (c :: rest))
    (hc : c.isDigit = true) :
    ∃ numeral after value, ReadsNumeral registry text before tokens (c :: rest) numeral after value := by
  have hlongest := Number.isLongestNumeral_lexeme hc rest
  have hrest := Number.lexeme_append_drop (c :: rest)
  obtain ⟨value, hvalue⟩ := hlongest.isNumeral.exists_isValue
  have hcursor (hf : value.isFinite = true) : Cursor registry 0 text.toList
      (before ++ Number.lexeme (c :: rest)) (tokens ++ [⟨.literal, .ofList (Number.lexeme (c :: rest))⟩])
      ((c :: rest).drop (Number.lexeme (c :: rest)).length) := by
    obtain ⟨htext, -⟩ := numeral?_eq_some hc (numeral?_of_isFinite hvalue hf)
    have hpos : 0 < (Number.lexeme (c :: rest)).length := by
      rw [← htext]
      exact Nat.succ_pos _
    have hnext := h.trans
      (.token (not_isBlank_of_isDigit hc) (lexeme_of_isFinite hc hvalue hf) .here)
    rwa [List.append_nil, htext, ← List.drop_succ_cons (a := c), Nat.sub_add_cancel hpos] at hnext
  refine ⟨_, _, value, hrest.symm, hlongest, hvalue, fun _ => hvalue.isFinite_iff, hcursor,
    fun hf => ?_, fun hf => ?_⟩
  · rw [tokenize, (hcursor hf).scan_eq, Nat.zero_add]
  · rw [tokenize, h.scan_eq, scan_cons_of_error (not_isBlank_of_isDigit hc)
      (lexeme_of_not_isFinite hc hvalue hf), Nat.zero_add]
    rfl

/-- An error of a numeral is one of a numeral whose value is not finite. -/
theorem exists_of_malformedLiteral {word : String}
    (h : tokenize registry text = .error (.malformedLiteral position word)) :
    ∃ before tokens c rest numeral after value,
      Cursor registry 0 text.toList before tokens (c :: rest) ∧ c.isDigit = true ∧
        position = byteLength before ∧ value.isFinite = false ∧
        ReadsNumeral registry text before tokens (c :: rest) numeral after value := by
  obtain ⟨before, tokens, c, rest, hcursor, -, hl⟩ := Cursor.exists_of_error h
  obtain ⟨-, hcause⟩ := lexeme_eq_error_iff.1 hl
  rw [Nat.zero_add] at hcause
  split at hcause
  · rename_i hc
    obtain ⟨hnone, herror⟩ := hcause
    obtain ⟨numeral, after, value, hreads⟩ := hcursor.exists_readsNumeral hc
    have hnumeral := hreads.isLongestNumeral.eq (Number.isLongestNumeral_lexeme hc rest)
    have hinfinite : value.isFinite = false := by
      refine Bool.eq_false_iff.2 fun hf => ?_
      rw [numeral?_of_isFinite (hnumeral ▸ hreads.isValue) hf] at hnone
      cases hnone
    exact ⟨before, tokens, c, rest, numeral, after, value, hcursor, hc,
      (LexError.malformedLiteral.inj herror).1, hinfinite, hreads⟩
  · cases hcause.2

/-! ## A text that is a numeral -/

/-- A text that is a numeral with a finite value is one token. -/
theorem tokenize_of_isValue (h : Number.IsValue text.toList x) (hf : x.isFinite = true) :
    tokenize registry text = .ok [⟨.literal, text⟩] := by
  have hself := h.isNumeral.isLongestNumeral
  obtain ⟨c, cs, htext, hc⟩ := h.isNumeral.exists_cons
  have hstart : Cursor registry 0 text.toList [] [] (c :: cs) := htext ▸ .here
  obtain ⟨numeral, after, value, hreads⟩ := hstart.exists_readsNumeral hc
  have hrest := hreads.rest_eq
  rw [← htext] at hreads hrest
  obtain rfl : text.toList = numeral := hself.eq hreads.isLongestNumeral
  obtain rfl : after = [] := List.append_right_eq_self.1 hrest.symm
  obtain rfl := hreads.isValue.unique h
  rw [hreads.tokenize_eq hf, scan_nil, String.ofList_toList]
  rfl

/-- The run over one literal yields its value. -/
theorem runAll_literal (h : Number.IsValue text.toList x) (store : Store) :
    runAll registry store [⟨.literal, text⟩] = .ok (x, ∅) := by
  rw [runAll, runTokens_singleton, Run.step_literal rfl h.read?_eq]
  rfl

/-- Wherever a text has a digit, the longest numeral there is read exactly. An error of a numeral is at such
a place, where the value is not finite. So a text that is one numeral with a finite value is one token, and
has this value. -/
theorem tokenize_literal (registry : Registry) (text : String) :
    (∀ before tokens c rest, Cursor registry 0 text.toList before tokens (c :: rest) →
      c.isDigit = true → ∃ numeral after value,
        ReadsNumeral registry text before tokens (c :: rest) numeral after value) ∧
    (∀ position word, tokenize registry text = .error (.malformedLiteral position word) →
      ∃ before tokens c rest numeral after value,
        Cursor registry 0 text.toList before tokens (c :: rest) ∧ c.isDigit = true ∧
          position = byteLength before ∧ value.isFinite = false ∧
          ReadsNumeral registry text before tokens (c :: rest) numeral after value) ∧
    ∀ value, Number.IsValue text.toList value → value.isFinite = true →
      tokenize registry text = .ok [⟨.literal, text⟩] ∧
        ∀ store, evaluate registry store text = ⟨.ok value, store⟩ := by
  refine ⟨fun before tokens c rest h hc => h.exists_readsNumeral hc,
    fun position word h => exists_of_malformedLiteral h, fun value hvalue hf => ?_⟩
  have htokens : tokenize registry text = .ok [⟨.literal, text⟩] := tokenize_of_isValue hvalue hf
  refine ⟨htokens, fun store => ?_⟩
  rw [evaluate_of_tokenize htokens, evaluateTokens_of_ok (runAll_literal hvalue store)]
  rfl

/-- In `2e+x` the numeral is `2`, since no digit follows the sign. In `x*1e999` the value of the numeral
is not finite, and `1.5e1` is fifteen. -/
theorem tokenize_literal_sample :
    (∃ after, ReadsNumeral Library.registry "2e+x" [] [] "2e+x".toList "2".toList after 2) ∧
    (∃ before tokens c rest numeral after value,
      Cursor Library.registry 0 "x*1e999".toList before tokens (c :: rest) ∧ c.isDigit = true ∧
        2 = byteLength before ∧ value.isFinite = false ∧
        ReadsNumeral Library.registry "x*1e999" before tokens (c :: rest) numeral after value) ∧
    tokenize Library.registry "1.5e1" = .ok [⟨.literal, "1.5e1"⟩] ∧
      ∀ store, evaluate Library.registry store "1.5e1" = ⟨.ok 15, store⟩ := by
  refine ⟨?_, (tokenize_literal Library.registry "x*1e999").2.1 2 "1e999" (by decide +kernel), ?_⟩
  · obtain ⟨numeral, after, value, h⟩ :=
      (tokenize_literal Library.registry "2e+x").1 [] [] '2' ['e', '+', 'x'] .here rfl
    have hlexeme : Number.lexeme ['2', 'e', '+', 'x'] = ['2'] := by decide
    obtain rfl : numeral = ['2'] :=
      (h.isLongestNumeral.eq (Number.isLongestNumeral_lexeme (by decide) _)).trans hlexeme
    have hread : Number.read? ['2'] = some 2 := by decide +kernel
    obtain rfl : value = 2 := Option.some.inj (h.isValue.read?_eq.symm.trans hread)
    exact ⟨after, h⟩
  · have hlexeme : Number.lexeme ['1', '.', '5', 'e', '1'] = "1.5e1".toList := by decide
    have hnumeral : Number.IsNumeral "1.5e1".toList := hlexeme ▸ Number.isNumeral_lexeme (by decide)
    have hread : Number.read? "1.5e1".toList = some 15 := by decide +kernel
    exact (tokenize_literal Library.registry "1.5e1").2.2 15 (hnumeral.isValue_iff.2 hread)
      (by decide +kernel)

end Abacus
