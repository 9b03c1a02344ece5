import Mathlib.Control.Monad.Basic
import Abacus.Proofs.Library.Registered
import Abacus.Proofs.Number.Grammar
import Abacus.Proofs.Token.Greedy
import Abacus.Proofs.Token.Spelling

/-!
# Writing tokens and reading them back

The tokens that a text can be cut into (`Token.IsLexical`) are a comma, numerals with a finite value, and
names that are classified as what they are. When such tokens are written with blanks between any two
of them (`spread`), they are read back as they were (`tokenize_roundTrip`). Every text is cut into such
tokens, so that writing and reading them again changes nothing.

* `Name.isBracket_of_classify?`: every name is made of ASCII letters, digits and punctuation, so none
  contains a blank;
* `scan_append`: a token is read whole if a blank or the end follows;
* `isLexical_of_lexeme`: no other tokens are read.
-/

namespace Abacus

open Text

/-- Whether a token is one that a text can be cut into. -/
inductive Token.IsLexical (registry : Registry) : Token → Prop where
  | separator : IsLexical registry ⟨.separator, ","⟩
  | literal {text : String} {value : Float} (hn : Number.IsNumeral text.toList)
    (hv : Number.read? text.toList = some value) (hf : value.isFinite = true) :
    IsLexical registry ⟨.literal, text⟩
  | name {kind : TokenKind} {text : String}
    (hs : ∀ c ∈ text.toList.head?, c.isDigit = false ∧ c ≠ Name.separator)
    (hk : classify? registry text.toList = some kind) : IsLexical registry ⟨kind, text⟩

/-- The texts of tokens with a gap before each of them and one at the end. The gaps are numbered, and
the first of them has the number `i`. -/
def spread (gap : Nat → String) (i : Nat) : List Token → String
  | [] => gap i
  | token :: tokens => gap i ++ token.text ++ spread gap (i + 1) tokens

variable {registry : Registry} {cs rest : List Char} {position : Nat}

/-! ## No blank inside a token -/

theorem not_isBlank_of_isPunctuation {c : Char} (h : Name.isPunctuation c = true) :
    isBlank c = false := by
  rw [Bool.eq_false_iff, ne_eq, isBlank_iff]
  rintro ⟨range, hr, hlo, hhi⟩
  simp only [Name.isPunctuation, Bool.or_eq_true, Bool.and_eq_true, decide_eq_true_eq] at h
  simp only [blankRanges, List.mem_cons, List.not_mem_nil, or_false] at hr
  rcases hr with rfl | rfl | rfl | rfl | rfl | rfl | rfl | rfl | rfl | rfl <;>
    simp only at hlo hhi <;> omega

theorem Name.isBracket_of_isValid {nameClass : NameClass} {name : String}
    (h : isValid nameClass name = true) : isBracket name = true := by
  cases nameClass with
  | function => exact isBracket_of_isOperator (isOperator_of_isVariable h)
  | operator => exact isBracket_of_isOperator h
  | bracket => exact h

/-- Whatever is classified could be the name of a bracket: the names of brackets are the widest class. -/
theorem Name.isBracket_of_classify? (h : registry.Reachable) {kind : TokenKind}
    (hc : classify? registry cs = some kind) : isBracket (String.ofList cs) = true := by
  have hfind : ∀ kind, (registry.find? (String.ofList cs) kind).isSome = true →
      isBracket (String.ofList cs) = true := by
    intro kind hs
    obtain ⟨op, hf⟩ := Option.isSome_iff_exists.1 hs
    exact isBracket_of_isValid (h.find?_eq_some hf).2.2
  simp only [classify?] at hc
  split at hc
  · rename_i hr
    exact hfind _ hr
  split at hc
  · rename_i hr
    simp only [Registry.isOperator, Bool.or_eq_true] at hr
    rcases hr with (hr | hr) | hr <;> exact hfind _ hr
  split at hc
  · rename_i hr
    rcases hr with hr | hr
    · rcases of_decide_eq_true hr with rfl | rfl <;> decide
    · rw [Registry.isBracket, Registry.bracket?, Option.isSome_or, Bool.or_eq_true] at hr
      rcases hr with hr | hr <;> exact hfind _ hr
  split at hc
  · rename_i hr
    exact isBracket_of_isOperator (isOperator_of_isVariable hr)
  · cases hc

theorem not_isBlank_of_isBracket {name : String} (h : Name.isBracket name = true) :
    ∀ c ∈ name.toList, isBlank c = false := by
  rw [Name.isBracket] at h
  generalize name.toList = cs at h ⊢
  cases cs with
  | nil => simp
  | cons c cs =>
    simp only [Name.spelled_cons, Bool.and_eq_true, Bool.or_eq_true, List.all_eq_true] at h
    refine List.forall_mem_cons.2 ⟨?_, fun d hd => ?_⟩
    · rcases h.1.1 with ha | hp
      · exact not_isBlank_of_isAlphanum (Name.isAlphanum_of_isAlpha ha)
      · exact not_isBlank_of_isPunctuation hp
    · rcases (h.2 d hd).1 with ha | hp
      · exact not_isBlank_of_isAlphanum ha
      · exact not_isBlank_of_isPunctuation hp

theorem ne_separator_of_isDigit {c : Char} (h : c.isDigit = true) : c ≠ Name.separator := by
  rintro rfl
  exact absurd h (by decide)

theorem not_isBlank_of_isDigit {c : Char} (h : c.isDigit = true) : isBlank c = false :=
  not_isBlank_of_isAlphanum (by simp [Char.isAlphanum, h])

theorem Number.IsNumeral.not_isBlank {t : List Char} (h : IsNumeral t) : ∀ c ∈ t, isBlank c = false := by
  obtain ⟨hw, _, hp, he⟩ := h
  have hdigits : ∀ {ds : List Char}, IsDigits ds → ∀ c ∈ ds, isBlank c = false :=
    fun hd c hc => not_isBlank_of_isDigit (hd c hc)
  refine List.forall_mem_append.2 ⟨hdigits hw, List.forall_mem_append.2 ⟨?_, ?_⟩⟩
  · cases hp with
    | none => simp
    | point hd => exact List.forall_mem_cons.2 ⟨by decide, hdigits hd⟩
  · cases he with
    | none => simp
    | mark hc hs hd =>
      refine List.forall_mem_cons.2 ⟨?_, List.forall_mem_append.2 ⟨?_, hdigits hd⟩⟩
      · rcases hc with rfl | rfl <;> decide
      · rcases hs with rfl | rfl | rfl <;> simp <;> decide

/-! ## Reading a token -/

/-- A word ends where a blank or nothing follows. -/
theorem word_append (hcs : ∀ c ∈ cs, isBlank c = false) (hrest : ∀ c ∈ rest.head?, isBlank c = true) :
    word (cs ++ rest) = cs := by
  have hpos : ∀ c ∈ cs, (!isBlank c) = true := fun c hc => by simp [hcs c hc]
  have hnil : rest.takeWhile (!isBlank ·) = [] := by
    cases rest with
    | nil => rfl
    | cons c rest => simp [hrest c rfl]
  rw [word, List.takeWhile_append_of_pos hpos, hnil, List.append_nil]

/-- A numeral is read whole if a blank or nothing follows: what is read begins with it and has no
blank, so it does not go on into what follows. -/
theorem Number.lexeme_append_blank {t : List Char} (ht : IsNumeral t)
    (hrest : ∀ c ∈ rest.head?, isBlank c = true) : lexeme (t ++ rest) = t := by
  obtain ⟨c, cs, rfl, hc⟩ := ht.exists_cons
  have hread : IsNumeral (lexeme (c :: cs ++ rest)) := isNumeral_lexeme hc
  obtain ⟨more, hmore⟩ := ht.prefix_lexeme rest
  have hsplit := lexeme_append_drop (c :: cs ++ rest)
  rw [← hmore, List.append_assoc] at hsplit
  have hbegins : more <+: rest := ⟨_, List.append_cancel_left hsplit⟩
  cases more with
  | nil => rw [← hmore, List.append_nil]
  | cons d more =>
    obtain ⟨tail, rfl⟩ := hbegins
    have hblank : isBlank d = true := hrest d rfl
    have hnot : isBlank d = false := hread.not_isBlank d (hmore ▸ by simp)
    rw [hblank] at hnot
    cases hnot

theorem numeral?_append {t : List Char} (ht : Number.IsNumeral t) {value : Float}
    (hv : Number.read? t = some value) (hf : value.isFinite = true)
    (hrest : ∀ c ∈ rest.head?, isBlank c = true) : numeral? (t ++ rest) = some (t.length - 1) := by
  simp only [numeral?, Number.lexeme_append_blank ht hrest, hv, hf, if_true]

/-- A name is read whole if a blank or nothing follows. -/
theorem name?_append (h : registry.Reachable) {kind : TokenKind}
    (hk : classify? registry cs = some kind) (hne : cs ≠ [])
    (hrest : ∀ c ∈ rest.head?, isBlank c = true) :
    name? registry (cs ++ rest) = some (kind, cs.length - 1) := by
  have hblank := not_isBlank_of_isBracket (Name.isBracket_of_classify? h hk)
  rw [String.toList_ofList] at hblank
  have hpos := List.length_pos_iff.2 hne
  rw [name?_eq_greedyName? h, greedyName?_eq_longestPrefix?, word_append hblank hrest,
    longestPrefix?_eq_some_iff]
  refine ⟨by omega, ?_, fun m h₁ h₂ => by omega⟩
  rw [Nat.sub_add_cancel hpos, List.take_left, hk]

/-- A token that a text can be cut into is read whole if a blank or nothing follows. -/
theorem Token.IsLexical.lexeme (h : registry.Reachable) {token : Token} (ht : token.IsLexical registry)
    (hrest : ∀ c ∈ rest.head?, isBlank c = true) (position : Nat) :
    ∃ c cs, token.text.toList = c :: cs ∧ isBlank c = false ∧
      Abacus.lexeme registry position c (cs ++ rest) = .ok (token.kind, cs.length) := by
  cases ht with
  | separator => exact ⟨',', [], rfl, by decide, rfl⟩
  | @literal text value hn hv hf =>
    have hread := numeral?_append hn hv hf hrest
    obtain ⟨c, cs, htext, hc⟩ := hn.exists_cons
    rw [htext] at hread
    refine ⟨c, cs, htext, not_isBlank_of_isDigit hc, ?_⟩
    simp only [Abacus.lexeme, ne_separator_of_isDigit hc, hc, if_false, if_true, ← List.cons_append, hread]
    rfl
  | @name kind text hs hk =>
    have hvalid := Name.isBracket_of_classify? h hk
    have hblank := not_isBlank_of_isBracket hvalid
    rw [String.toList_ofList] at hblank
    obtain ⟨c, cs, htext⟩ : ∃ c cs, text.toList = c :: cs := by
      refine List.exists_cons_of_ne_nil fun hnil => ?_
      rw [hnil] at hvalid
      exact absurd hvalid (by decide)
    rw [htext] at hs hk hblank
    have hread := name?_append h hk (by simp) hrest
    refine ⟨c, cs, htext, hblank c List.mem_cons_self, ?_⟩
    simp only [Abacus.lexeme, (hs c rfl).2, (hs c rfl).1, if_false, Bool.false_eq_true,
      ← List.cons_append, hread]
    rfl

/-! ## Reading tokens with blanks between them -/

theorem scan_blanks (hcs : ∀ c ∈ cs, isBlank c = true) :
    scan registry position (cs ++ rest) = scan registry (position + byteLength cs) rest := by
  induction cs generalizing position with
  | nil => rfl
  | cons c cs ih =>
    obtain ⟨hc, hcs⟩ := List.forall_mem_cons.1 hcs
    rw [List.cons_append, scan_cons_blank hc, ih hcs, byteLength_cons, Nat.add_assoc]

theorem scan_append (h : registry.Reachable) {token : Token} (ht : token.IsLexical registry)
    (hrest : ∀ c ∈ rest.head?, isBlank c = true) :
    scan registry position (token.text.toList ++ rest) =
      (scan registry (position + byteLength token.text.toList) rest).map (token :: ·) := by
  obtain ⟨c, cs, htext, hb, hl⟩ := ht.lexeme h hrest position
  have htoken : (⟨token.kind, String.ofList (c :: cs)⟩ : Token) = token := by
    rw [← htext, String.ofList_toList]
  rw [htext, List.cons_append, scan_cons hb hl, List.take_left, List.drop_left, htoken]

/-- Between blanks, tokens are read as they are. -/
theorem scan_spread (h : registry.Reachable) {tokens : List Token}
    (ht : ∀ token ∈ tokens, token.IsLexical registry) {gap : Nat → String}
    (hb : ∀ i, ∀ c ∈ (gap i).toList, isBlank c = true) (i : Nat)
    (hg : ∀ j, i < j → j < i + tokens.length → gap j ≠ "") (position : Nat) :
    scan registry position (spread gap i tokens).toList = .ok tokens := by
  induction tokens generalizing i position with
  | nil =>
    rw [spread, ← List.append_nil (gap i).toList, scan_blanks (hb i), scan_nil]
  | cons token tokens ih =>
    obtain ⟨htoken, ht⟩ := List.forall_mem_cons.1 ht
    have hnext : ∀ c ∈ (spread gap (i + 1) tokens).toList.head?, isBlank c = true := by
      intro c hc
      cases tokens with
      | nil => exact hb (i + 1) c (List.mem_of_mem_head? hc)
      | cons next tokens =>
        have hne : gap (i + 1) ≠ "" :=
          hg (i + 1) (by omega) (by simp only [List.length_cons]; omega)
        obtain ⟨d, ds, hd⟩ := List.exists_cons_of_ne_nil (mt String.toList_eq_nil_iff.1 hne)
        rw [spread, String.append_assoc, String.toList_append, hd] at hc
        refine hb (i + 1) c ?_
        rw [hd, ← Option.some.inj hc]
        exact List.mem_cons_self
    rw [spread, String.append_assoc, String.toList_append, scan_blanks (hb i), String.toList_append,
      scan_append h htoken hnext, ih ht (i + 1) fun j h₁ h₂ => hg j (by omega)
        (by simp only [List.length_cons]; omega)]
    rfl

theorem tokenize_spread (h : registry.Reachable) {tokens : List Token}
    (ht : ∀ token ∈ tokens, token.IsLexical registry) {gap : Nat → String}
    (hb : ∀ i, ∀ c ∈ (gap i).toList, isBlank c = true)
    (hg : ∀ i, 0 < i → i < tokens.length → gap i ≠ "") :
    tokenize registry (spread gap 0 tokens) = .ok tokens :=
  scan_spread h ht hb 0 (fun i h₁ h₂ => hg i h₁ (by omega)) 0

/-! ## What is read -/

/-- A numeral that is read has a finite value, and it is the longest one. -/
theorem numeral?_eq_some {c : Char} (hc : c.isDigit = true) {n : Nat}
    (h : numeral? (c :: cs) = some n) :
    c :: cs.take n = Number.lexeme (c :: cs) ∧
      ∃ value, Number.read? (Number.lexeme (c :: cs)) = some value ∧ value.isFinite = true := by
  simp only [numeral?] at h
  split at h
  · rename_i value hv
    split at h
    · rename_i hf
      obtain rfl := Option.some.inj h
      refine ⟨?_, value, hv, hf⟩
      have hprefix : Number.lexeme (c :: cs) <+: c :: cs := ⟨_, Number.lexeme_append_drop _⟩
      have hpos : 0 < (Number.lexeme (c :: cs)).length := by
        have hnumeral : Number.IsNumeral (Number.lexeme (c :: cs)) := Number.isNumeral_lexeme hc
        obtain ⟨d, ds, hd, -⟩ := hnumeral.exists_cons
        simp [hd]
      rw [← List.take_succ_cons, Nat.sub_add_cancel hpos]
      exact (List.prefix_iff_eq_take.1 hprefix).symm
    · cases h
  · cases h

/-- Whatever token is read is one that a text can be cut into. -/
theorem isLexical_of_lexeme (h : registry.Reachable) {c : Char} {kind : TokenKind} {length : Nat}
    (hl : lexeme registry position c cs = .ok (kind, length)) :
    Token.IsLexical registry ⟨kind, .ofList (c :: cs.take length)⟩ := by
  unfold lexeme at hl
  split at hl
  · rename_i hc
    obtain ⟨rfl, rfl⟩ := Prod.mk.inj (Except.ok.inj hl)
    subst hc
    exact .separator
  · rename_i hne
    split at hl
    · rename_i hc
      split at hl
      · rename_i n hn
        obtain ⟨rfl, rfl⟩ := Prod.mk.inj (Except.ok.inj hl)
        obtain ⟨htext, value, hv, hf⟩ := numeral?_eq_some hc hn
        rw [htext]
        refine .literal ?_ ?_ hf
        · rw [String.toList_ofList]
          exact Number.isNumeral_lexeme hc
        · rwa [String.toList_ofList]
      · cases hl
    · rename_i hc
      split at hl
      · rename_i token hname
        obtain rfl := Except.ok.inj hl
        rw [name?_eq_greedyName? h, greedyName?_eq_longestPrefix?, longestPrefix?_eq_some_iff] at hname
        have hk := hname.2.1
        rw [List.take_succ_cons] at hk
        refine .name ?_ (by rwa [String.toList_ofList])
        rw [String.toList_ofList]
        rintro d ⟨⟩
        exact ⟨by simpa using hc, hne⟩
      · cases hl

/-- The tokens of a text are ones that a text can be cut into. -/
theorem isLexical_of_tokenize (h : registry.Reachable) {text : String} {tokens : List Token}
    (ht : tokenize registry text = .ok tokens) : ∀ token ∈ tokens, token.IsLexical registry :=
  forall_of_scan (fun _ _ _ _ _ hl => isLexical_of_lexeme h hl) 0 text.toList ht

/-- Tokens that a text can be cut into are read back as they are, if there is a blank between any two
of them; and a text is cut into such tokens only. So the tokens of a text, written with a blank between
any two of them, are read back. -/
theorem tokenize_roundTrip (h : registry.Reachable) :
    (∀ (tokens : List Token) (gap : Nat → String), (∀ token ∈ tokens, token.IsLexical registry) →
      (∀ i, ∀ c ∈ (gap i).toList, isBlank c = true) →
      (∀ i, 0 < i → i < tokens.length → gap i ≠ "") →
      tokenize registry (spread gap 0 tokens) = .ok tokens) ∧
    ∀ (text : String) (tokens : List Token), tokenize registry text = .ok tokens →
      (∀ token ∈ tokens, token.IsLexical registry) ∧
        ∀ gap : Nat → String, (∀ i, ∀ c ∈ (gap i).toList, isBlank c = true) →
          (∀ i, 0 < i → i < tokens.length → gap i ≠ "") →
          tokenize registry (spread gap 0 tokens) = .ok tokens := by
  refine ⟨fun tokens gap ht hb hg => tokenize_spread h ht hb hg, fun text tokens ht => ?_⟩
  have hlexical := isLexical_of_tokenize h ht
  exact ⟨hlexical, fun gap hb hg => tokenize_spread h hlexical hb hg⟩

/-- The tokens of `max(1.,-2.5e3)` are read back from between blanks. -/
theorem tokenize_roundTrip_sample :
    tokenize Library.registry "max \u00a0( \u00a01. \u00a0, \u00a0- \u00a02.5e3 \u00a0)" =
      .ok [⟨.function, "max"⟩, ⟨.bracket, "("⟩, ⟨.literal, "1."⟩, ⟨.separator, ","⟩,
        ⟨.operator, "-"⟩, ⟨.literal, "2.5e3"⟩, ⟨.bracket, ")"⟩] := by
  have htokens : tokenize Library.registry "max(1.,-2.5e3)" =
      .ok [⟨.function, "max"⟩, ⟨.bracket, "("⟩, ⟨.literal, "1."⟩, ⟨.separator, ","⟩,
        ⟨.operator, "-"⟩, ⟨.literal, "2.5e3"⟩, ⟨.bracket, ")"⟩] := by
    decide +kernel
  refine ((tokenize_roundTrip Library.reachable_registry).2 _ _ htokens).2
    (fun i => if i = 0 ∨ i = 7 then "" else " \u00a0") (fun i => ?_) (fun i h₁ h₂ => ?_)
  · exact List.all_eq_true.1 (by split <;> decide)
  · rw [if_neg (by simp only [List.length_cons, List.length_nil] at h₂; omega)]
    decide

end Abacus
