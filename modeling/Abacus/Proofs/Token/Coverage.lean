import Abacus.Proofs.Token.Cursor
import Abacus.Proofs.Token.Known

/-!
# What a text is cut into, and where it cannot be cut

The tokens of a text are all of it but the blanks (`IsCutInto`), and an error tells where the text goes
wrong (`LexError.Locates`): what is before the position has tokens, and at the position is the word of the
error, which begins with no token. It is a malformed numeral if it begins with a digit, and otherwise
nothing that it begins with is a name (`tokenize_covers`).

* `Token.IsLexical.not_isBlank`: a token is not empty and has no blank in it;
* `isCutInto_of_tokenize`: the characters that are not blanks are those of the tokens;
* `lexeme_eq_error_iff`: the two ways in which there is no token at a place.
-/

namespace Abacus

open Text

/-- Whether tokens are all of a text but the blanks: the text is the tokens with blanks in the gaps
between them, and each character that is not blank is in one of the tokens, in the same order. -/
structure IsCutInto (text : String) (tokens : List Token) : Prop where
  exists_spread : ∃ gap : Nat → String, (∀ i, ∀ c ∈ (gap i).toList, isBlank c = true) ∧
    text = spread gap 0 tokens
  filter_eq : text.toList.filter (!isBlank ·) = tokens.flatMap fun token => token.text.toList
  ne_empty : ∀ token ∈ tokens, token.text ≠ ""
  not_isBlank : ∀ token ∈ tokens, ∀ c ∈ token.text.toList, isBlank c = false

/-- Whether an error tells where a text goes wrong, and how: the text is in three parts, the first of which
has tokens. The second is a word, which a blank or nothing follows. The position is the number of bytes
before it. -/
structure LexError.Locates (registry : Registry) (text : String) (error : LexError)
    (before word after : String) : Prop where
  text_eq : text = before ++ word ++ after
  tokenize_before : ∃ tokens, tokenize registry before = .ok tokens
  not_isBlank : ∀ c ∈ word.toList, isBlank c = false
  isBlank_after : ∀ c ∈ after.toList.head?, isBlank c = true
  error_eq : ∃ c ∈ word.toList.head?, c ≠ Name.separator ∧
    error = if c.isDigit then .malformedLiteral before.utf8ByteSize word
      else .unknownIdentifier before.utf8ByteSize word
  not_name : error = .unknownIdentifier before.utf8ByteSize word →
    ∀ name : String, name ≠ "" → name.toList <+: word.toList →
      registry.contains name = false ∧ name ≠ "(" ∧ name ≠ ")" ∧ Name.isVariable name = false

variable {registry : Registry} {position : Nat} {c : Char} {cs before rest : List Char}
  {tokens : List Token}

/-! ## The tokens of a text -/

/-- A token that a text can be cut into is not empty. -/
theorem Token.IsLexical.ne_empty (h : registry.Reachable) {token : Token}
    (ht : token.IsLexical registry) : token.text ≠ "" := by
  have hrest : ∀ c ∈ ([] : List Char).head?, isBlank c = true := by simp
  obtain ⟨c, cs, htext, -⟩ := ht.lexeme h hrest 0
  intro hempty
  rw [hempty] at htext
  cases htext

/-- A token that a text can be cut into has no blank in it. -/
theorem Token.IsLexical.not_isBlank (h : registry.Reachable) {token : Token}
    (ht : token.IsLexical registry) : ∀ c ∈ token.text.toList, isBlank c = false := by
  cases ht with
  | separator => exact List.forall_mem_singleton.2 (by decide)
  | literal hn => exact hn.not_isBlank
  | @name kind text _ hk =>
    have hblank := not_isBlank_of_isBracket (Name.isBracket_of_classify? h hk)
    rwa [String.ofList_toList] at hblank

/-- The characters of tokens with blanks between them that are not blank are those of the tokens. -/
theorem filter_spread {gap : Nat → String} (hgap : ∀ i, ∀ c ∈ (gap i).toList, isBlank c = true)
    (ht : ∀ token ∈ tokens, ∀ c ∈ token.text.toList, isBlank c = false) (i : Nat) :
    (spread gap i tokens).toList.filter (!isBlank ·) =
      tokens.flatMap fun token => token.text.toList := by
  have hnil : ∀ i, (gap i).toList.filter (!isBlank ·) = [] := fun i =>
    List.filter_eq_nil_iff.2 fun c hc => by simp [hgap i c hc]
  induction tokens generalizing i with
  | nil => rw [spread, hnil, List.flatMap_nil]
  | cons token tokens ih =>
    obtain ⟨htoken, ht⟩ := List.forall_mem_cons.1 ht
    have hself : token.text.toList.filter (!isBlank ·) = token.text.toList :=
      List.filter_eq_self.2 fun c hc => by simp [htoken c hc]
    rw [spread, String.toList_append, String.toList_append, List.filter_append, List.filter_append,
      hnil, hself, List.nil_append, ih ht, List.flatMap_cons]

theorem isCutInto_of_tokenize (h : registry.Reachable) {text : String}
    (ht : tokenize registry text = .ok tokens) : IsCutInto text tokens := by
  have hlexical := isLexical_of_tokenize h ht
  have hblank : ∀ token ∈ tokens, ∀ c ∈ token.text.toList, isBlank c = false :=
    fun token hm => (hlexical token hm).not_isBlank h
  obtain ⟨gap, hgap, hspread⟩ := (Cursor.of_scan ht).exists_spread 0
  rw [String.ofList_toList] at hspread
  refine ⟨⟨gap, hgap, hspread⟩, ?_, fun token hm => (hlexical token hm).ne_empty h, hblank⟩
  rw [hspread]
  exact filter_spread hgap hblank 0

/-! ## The error of a text -/

theorem classify?_eq_none_iff {name : String} :
    classify? registry name.toList = none ↔
      registry.contains name = false ∧ isCallSymbol name.toList = false ∧
        Name.isVariable name = false := by
  simp only [classify?, String.ofList_toList, Registry.contains, Bool.or_eq_false_iff]
  cases registry.isFunction name <;> cases registry.isOperator name <;>
    cases registry.isBracket name <;> cases isCallSymbol name.toList <;>
    cases Name.isVariable name <;> simp

/-- Where there is no name, nothing that the word begins with is one. -/
theorem classify?_of_name?_eq_none (h : registry.Reachable) (hn : name? registry cs = none)
    {us : List Char} (hne : us ≠ []) (hp : us <+: word cs) : classify? registry us = none := by
  rw [name?_eq_greedyName? h, greedyName?, List.findSome?_eq_none_iff] at hn
  have hpos : 0 < us.length := List.length_pos_iff.2 hne
  have hlt : us.length - 1 < (word cs).length := Nat.lt_of_lt_of_le (by omega) hp.length_le
  have hnone := hn (us.length - 1) (List.mem_reverse.2 (List.mem_range.2 hlt))
  rw [Option.map_eq_none_iff, Nat.sub_add_cancel hpos, ← List.prefix_iff_eq_take.1 hp] at hnone
  exact hnone

/-- There is no token where there is a digit and no numeral, and where there is no name. -/
theorem lexeme_eq_error_iff {error : LexError} :
    lexeme registry position c cs = .error error ↔ c ≠ Name.separator ∧
      if c.isDigit then
        numeral? (c :: cs) = none ∧ error = .malformedLiteral position (.ofList (word (c :: cs)))
      else
        name? registry (c :: cs) = none ∧
          error = .unknownIdentifier position (.ofList (word (c :: cs))) := by
  unfold lexeme
  by_cases hs : c = Name.separator
  · simp [hs]
  · by_cases hd : c.isDigit = true
    · cases numeral? (c :: cs) <;> simp [hs, hd, eq_comm]
    · cases name? registry (c :: cs) <;> simp [hs, hd, eq_comm]

/-- A word ends before a blank or at the end. -/
theorem isBlank_of_mem_head?_dropWhile (cs : List Char) :
    ∀ c ∈ (cs.dropWhile (!isBlank ·)).head?, isBlank c = true := by
  intro c hc
  have hnot := List.head?_dropWhile_not (!isBlank ·) cs
  rw [Option.mem_def.1 hc] at hnot
  simpa using hnot

/-- An error tells where a text goes wrong. -/
theorem exists_locates_of_tokenize (h : registry.Reachable) {text : String} {error : LexError}
    (ht : tokenize registry text = .error error) :
    ∃ before word after, error.Locates registry text before word after := by
  obtain ⟨before, tokens, c, rest, hcursor, hb, hl⟩ := Cursor.exists_of_error ht
  obtain ⟨hs, hcause⟩ := lexeme_eq_error_iff.1 hl
  rw [Nat.zero_add, ← utf8ByteSize_ofList] at hcause
  have hhead : (word (c :: rest)).head? = some c := by
    rw [word_cons, hb]
    rfl
  refine ⟨.ofList before, .ofList (word (c :: rest)),
    .ofList ((c :: rest).dropWhile (!isBlank ·)), ?_, ⟨tokens, ?_⟩, ?_, ?_, ?_, ?_⟩
  · rw [← String.ofList_append, ← String.ofList_append, List.append_assoc, word,
      List.takeWhile_append_dropWhile, ← hcursor.eq_append, String.ofList_toList]
  · rw [tokenize, String.toList_ofList]
    exact hcursor.scan_before h
  · rw [String.toList_ofList]
    exact fun d hd => not_isBlank_of_mem_word hd
  · rw [String.toList_ofList]
    exact isBlank_of_mem_head?_dropWhile _
  · rw [String.toList_ofList]
    refine ⟨c, hhead, hs, ?_⟩
    split at hcause
    · rename_i hd
      rw [if_pos hd, hcause.2]
    · rename_i hd
      rw [if_neg hd, hcause.2]
  · intro herror name hne hp
    rw [String.toList_ofList] at hp
    split at hcause
    · rw [hcause.2] at herror
      cases herror
    · have hnone := classify?_of_name?_eq_none h hcause.1 (mt String.toList_eq_nil_iff.1 hne) hp
      obtain ⟨hcontains, hcall, hvariable⟩ := classify?_eq_none_iff.1 hnone
      rw [Bool.eq_false_iff, ne_eq, isCallSymbol_iff, not_or] at hcall
      exact ⟨hcontains, hcall.1, hcall.2, hvariable⟩

/-- The tokens of a text are all of it but the blanks, and an error tells where the text goes wrong. -/
theorem tokenize_covers (h : registry.Reachable) (text : String) :
    (∀ tokens, tokenize registry text = .ok tokens → IsCutInto text tokens) ∧
    ∀ error, tokenize registry text = .error error →
      ∃ before word after, error.Locates registry text before word after :=
  ⟨fun _ ht => isCutInto_of_tokenize h ht, fun _ ht => exists_locates_of_tokenize h ht⟩

/-- In `-2e 3` with a wide blank the tokens are all but the blank. In the other text the blank has three
bytes too, so the word that has no token stands behind five bytes. -/
theorem tokenize_covers_sample :
    IsCutInto "-2e\u20033" [⟨.operator, "-"⟩, ⟨.literal, "2"⟩, ⟨.var, "e"⟩, ⟨.literal, "3"⟩] ∧
    ∃ before word after,
      (LexError.unknownIdentifier 5 "é3").Locates Library.registry "2e\u2003é3 x" before word after := by
  refine ⟨(tokenize_covers Library.reachable_registry _).1 _ ?_,
    (tokenize_covers Library.reachable_registry _).2 _ ?_⟩
  · decide +kernel
  · decide +kernel

end Abacus
