import Abacus.Proofs.Registry.Reachable
import Abacus.Token.Scan

/-!
# How tokens are spelled

What a text is cut into is spelled as its kind requires: no name of a function or an operator is a
parenthesis, and a separator is a comma (`isWellSpelled_of_tokenize`). What holds of every lexeme holds
of every token (`forall_of_scan`).
-/

namespace Abacus

/-- Whether a token is spelled as its kind requires. -/
structure Token.IsWellSpelled (token : Token) : Prop where
  bracket : token.isSymbol Name.callOpen = true → token.kind = .bracket
  separator : token.kind = .separator → token.text = ","

variable {registry : Registry}

/-- What holds of every lexeme holds of every token of a text. -/
theorem forall_of_scan {P : Token → Prop}
    (hp : ∀ position c cs kind length, lexeme registry position c cs = .ok (kind, length) →
      P ⟨kind, .ofList (c :: cs.take length)⟩) (position : Nat) (cs : List Char)
    {tokens : List Token} (h : scan registry position cs = .ok tokens) :
    ∀ token ∈ tokens, P token := by
  induction position, cs using scan.induct registry generalizing tokens with
  | case1 position =>
    rw [scan_nil] at h
    simp [← Except.ok.inj h]
  | case2 position c cs hb ih => exact ih (scan_cons_blank hb ▸ h)
  | case3 position c cs hb error hl =>
    rw [scan_cons_of_error (by simpa using hb) hl] at h
    cases h
  | case4 position c cs hb kind length hl text error hs =>
    rw [scan_cons (by simpa using hb) hl, hs] at h
    cases h
  | case5 position c cs hb kind length hl text rest hs =>
    rename_i ih
    rw [scan_cons (by simpa using hb) hl, hs] at h
    obtain rfl := Except.ok.inj h
    exact List.forall_mem_cons.2 ⟨hp position c cs kind length hl, ih hs⟩

/-- A parenthesis names neither a function nor an operator. -/
theorem classify?_of_isCallSymbol (h : registry.Reachable) {cs : List Char}
    (hc : isCallSymbol cs = true) : classify? registry cs = some .bracket := by
  have hname : ∀ kind : Kind, kind.nameClass ≠ .bracket →
      registry.find? (String.ofList cs) kind = none := by
    intro kind hk
    cases hf : registry.find? (String.ofList cs) kind with
    | none => rfl
    | some op =>
      have hv := (h.find?_eq_some hf).2.2
      rcases of_decide_eq_true hc with rfl | rfl <;>
        cases kind <;> first | exact absurd rfl hk | exact absurd hv (by decide)
  simp [classify?, Registry.isFunction, Registry.isOperator, hname .function (by decide),
    hname .binary (by decide), hname .prefixOp (by decide), hname .postfixOp (by decide), hc]

theorem isWellSpelled_of_classify? (h : registry.Reachable) {cs : List Char} {kind : TokenKind}
    (hc : classify? registry cs = some kind) : Token.IsWellSpelled ⟨kind, .ofList cs⟩ := by
  refine ⟨fun hs => ?_, fun hk => ?_⟩
  · obtain rfl : cs = [Name.callOpen] := by simpa [Token.isSymbol] using hs
    rw [classify?_of_isCallSymbol h (by decide)] at hc
    exact (Option.some.inj hc).symm
  · obtain rfl : kind = .separator := hk
    unfold classify? at hc
    dsimp only at hc
    split at hc
    · cases hc
    · split at hc
      · cases hc
      · split at hc
        · cases hc
        · split at hc <;> cases hc

/-- A token that begins with a character other than a parenthesis is well spelled. -/
theorem isWellSpelled_of_ne {c : Char} (hc : c ≠ Name.callOpen) {kind : TokenKind}
    (hk : kind ≠ .separator) (cs : List Char) : Token.IsWellSpelled ⟨kind, .ofList (c :: cs)⟩ := by
  refine ⟨fun hs => ?_, fun h => absurd h hk⟩
  rw [Token.isSymbol_iff, String.toList_ofList] at hs
  exact absurd (List.cons.inj hs).1 hc

theorem isWellSpelled_of_lexeme (h : registry.Reachable) {position : Nat} {c : Char}
    {cs : List Char} {kind : TokenKind} {length : Nat}
    (hl : lexeme registry position c cs = .ok (kind, length)) :
    Token.IsWellSpelled ⟨kind, .ofList (c :: cs.take length)⟩ := by
  unfold lexeme at hl
  split at hl
  · rename_i hc
    obtain ⟨rfl, rfl⟩ := Prod.mk.inj (Except.ok.inj hl)
    subst hc
    rw [List.take_zero]
    exact ⟨fun hs => absurd hs (by decide), fun _ => rfl⟩
  · split at hl
    · rename_i hdigit
      split at hl
      · obtain ⟨rfl, rfl⟩ := Prod.mk.inj (Except.ok.inj hl)
        refine isWellSpelled_of_ne ?_ (by simp) _
        rintro rfl
        exact absurd hdigit (by decide)
      · cases hl
    · split at hl
      · rename_i token hname
        obtain rfl := Except.ok.inj hl
        unfold name? at hname
        dsimp only at hname
        split at hname
        · rename_i hlong
          obtain ⟨rfl, rfl⟩ := Prod.mk.inj (Option.some.inj hname)
          refine isWellSpelled_of_ne ?_ (by simp) _
          rintro rfl
          exact absurd hlong (by simp [variableRun, Name.callOpen])
        · exact isWellSpelled_of_classify? h (longestPrefix?_eq_some_iff.1 hname).2.1
      · cases hl

/-- The tokens of a text are spelled as their kinds require. -/
theorem isWellSpelled_of_tokenize (h : registry.Reachable) {text : String} {tokens : List Token}
    (ht : tokenize registry text = .ok tokens) : ∀ token ∈ tokens, token.IsWellSpelled :=
  forall_of_scan (fun _ _ _ _ _ hl => isWellSpelled_of_lexeme h hl) 0 text.toList ht

end Abacus
