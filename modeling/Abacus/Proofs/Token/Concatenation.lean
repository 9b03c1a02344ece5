import Abacus.Proofs.Token.RoundTrip

/-!
# Texts joined by a blank

A text in two parts with a blank between them is read as the first part and then the second
(`tokenize_append_blank`): the tokens of both, or else the error of the first part that has one. An
error of the second part stands further on, by the bytes before that part.

Nothing that is read at one place looks behind the next blank: neither the run of a long variable
(`variableRun_append_blank`), nor the window of names that are tried (`window_append_blank`), nor a
numeral (`Number.lexeme_cons_append_blank`), nor the word of an error. So the token at the start of a
text is the same with a blank and anything behind it (`lexeme_append_blank`).

* `length_le_of_lexeme`: a token ends within the text that it is read from;
* `scan_append_blank`: reading on behind a blank, at any position;
* `scan_add`: the position matters to an error only.
-/

namespace Abacus

open Text

/-- The same error `n` bytes further on. -/
def LexError.shift (n : Nat) : LexError → LexError
  | .unknownIdentifier position text => .unknownIdentifier (position + n) text
  | .malformedLiteral position text => .malformedLiteral (position + n) text

variable {registry : Registry} {position length : Nat} {c w : Char} {cs : List Char}

/-! ## Nothing is seen behind a blank -/

theorem takeWhile_isAlphanum_append_blank (hw : isBlank w = true) (rest : List Char) :
    (cs ++ w :: rest).takeWhile Char.isAlphanum = cs.takeWhile Char.isAlphanum := by
  have hword : w.isAlphanum = false := by
    rw [Bool.eq_false_iff]
    intro ha
    rw [not_isBlank_of_isAlphanum ha] at hw
    cases hw
  induction cs with
  | nil => simp [hword]
  | cons c cs ih => simp only [List.cons_append, List.takeWhile_cons, ih]

theorem variableRun_append_blank (hw : isBlank w = true) (rest : List Char) :
    variableRun (c :: cs ++ w :: rest) = variableRun (c :: cs) := by
  simp only [List.cons_append, variableRun, takeWhile_isAlphanum_append_blank hw]

theorem window_append_blank (hw : isBlank w = true) (rest : List Char) (room : Nat) :
    window room (cs ++ w :: rest) = window room cs := by
  induction cs generalizing room with
  | nil => simp [window, hw]
  | cons c cs ih => simp only [List.cons_append, window, ih]

/-- Prefixes that end within a text are the same whatever follows the text. -/
theorem longestPrefix?_append {classify : List Char → Option TokenKind} (h : length ≤ cs.length)
    (rest : List Char) :
    longestPrefix? classify (cs ++ rest) length = longestPrefix? classify cs length := by
  induction length with
  | zero => rfl
  | succ length ih =>
    rw [longestPrefix?, longestPrefix?, List.take_append_of_le_length h, ih (Nat.le_of_succ_le h)]

theorem name?_append_blank (hw : isBlank w = true) (rest : List Char) :
    name? registry (c :: cs ++ w :: rest) = name? registry (c :: cs) := by
  have hwindow : (window (max registry.longestName 1) (c :: cs)).length ≤ (c :: cs).length :=
    Nat.le_trans (length_window_le _) length_word_le
  simp only [name?, variableRun_append_blank hw, window_append_blank hw,
    longestPrefix?_append hwindow]

/-- A prefix without blanks ends before the first blank. -/
theorem prefix_of_prefix_append_blank (hw : isBlank w = true) {rest t : List Char}
    (ht : ∀ d ∈ t, isBlank d = false) (h : t <+: cs ++ w :: rest) : t <+: cs := by
  rcases List.prefix_or_prefix_of_prefix h (List.prefix_append cs (w :: rest)) with h | ⟨more, rfl⟩
  · exact h
  · cases more with
    | nil => simp
    | cons d more =>
      obtain rfl : d = w := (List.cons_prefix_cons.1 ((List.prefix_append_right_inj _).1 h)).1
      rw [ht d (by simp)] at hw
      cases hw

/-- A numeral is the same with a blank and anything behind it, as it ends before the blank. -/
theorem Number.lexeme_cons_append_blank (hc : c.isDigit = true) (hw : isBlank w = true)
    (rest : List Char) : lexeme (c :: cs ++ w :: rest) = lexeme (c :: cs) := by
  have hlong : IsNumeral (lexeme (c :: cs ++ w :: rest)) := isNumeral_lexeme hc
  have hends : lexeme (c :: cs ++ w :: rest) <+: c :: cs :=
    prefix_of_prefix_append_blank hw hlong.not_isBlank ⟨_, lexeme_append_drop _⟩
  exact (lexeme_eq_of_isPrefix hc (List.prefix_append _ _) hends).symm

/-- The token at the start of a text is the same with a blank and anything behind the text, and so is
the error if there is none. -/
theorem lexeme_append_blank (hw : isBlank w = true) (rest : List Char) :
    lexeme registry position c (cs ++ w :: rest) = lexeme registry position c cs := by
  have hword : word (c :: (cs ++ w :: rest)) = word (c :: cs) :=
    word_append_blank (c :: cs) hw rest
  have hname : name? registry (c :: (cs ++ w :: rest)) = name? registry (c :: cs) :=
    name?_append_blank hw rest
  simp only [lexeme, hword, hname]
  by_cases hc : c.isDigit = true
  · have hnumeral : numeral? (c :: (cs ++ w :: rest)) = numeral? (c :: cs) := by
      simp only [numeral?, ← List.cons_append, Number.lexeme_cons_append_blank hc hw]
    rw [hnumeral]
  · simp only [hc, Bool.false_eq_true, if_false]

/-! ## The two parts -/

theorem le_of_numeral? {n : Nat} (h : numeral? (c :: cs) = some n) : n ≤ cs.length := by
  have hsplit := congrArg List.length (Number.lexeme_append_drop (c :: cs))
  simp only [List.length_append, List.length_cons] at hsplit
  simp only [numeral?] at h
  split at h
  · split at h
    · have := Option.some.inj h
      omega
    · cases h
  · cases h

theorem le_of_name? {kind : TokenKind} {n : Nat} (h : name? registry (c :: cs) = some (kind, n)) :
    n ≤ cs.length := by
  have hword : (word (c :: cs)).length ≤ cs.length + 1 := length_word_le
  simp only [name?] at h
  split at h
  · obtain ⟨-, rfl⟩ := Prod.mk.inj (Option.some.inj h)
    have hrun : (variableRun (c :: cs)).length ≤ (word (c :: cs)).length := length_variableRun_le
    omega
  · have hlt := (longestPrefix?_eq_some_iff.1 h).1
    have hwindow : (window (max registry.longestName 1) (c :: cs)).length ≤ (word (c :: cs)).length :=
      length_window_le _
    omega

/-- A token ends within the text that it is read from. -/
theorem length_le_of_lexeme {kind : TokenKind}
    (h : lexeme registry position c cs = .ok (kind, length)) : length ≤ cs.length := by
  unfold lexeme at h
  split at h
  · obtain ⟨-, rfl⟩ := Prod.mk.inj (Except.ok.inj h)
    exact Nat.zero_le _
  · split at h
    · split at h
      · rename_i hn
        obtain ⟨-, rfl⟩ := Prod.mk.inj (Except.ok.inj h)
        exact le_of_numeral? hn
      · cases h
    · split at h
      · rename_i hname
        obtain rfl := Except.ok.inj h
        exact le_of_name? hname
      · cases h

/-- Behind a blank, reading goes on as if it began there. -/
theorem scan_append_blank (hw : isBlank w = true) (position : Nat) (as bs : List Char) :
    scan registry position (as ++ w :: bs) =
      (scan registry position as).bind fun tokens =>
        (scan registry (position + byteLength as + w.utf8Size) bs).map (tokens ++ ·) := by
  induction position, as using scan.induct registry with
  | case1 position =>
    rw [List.nil_append, scan_cons_blank hw, scan_nil]
    show _ = (scan registry (position + w.utf8Size) bs).map ([] ++ ·)
    cases scan registry (position + w.utf8Size) bs <;> rfl
  | case2 position c cs hb ih =>
    rw [List.cons_append, scan_cons_blank hb, scan_cons_blank hb, ih, byteLength_cons,
      Nat.add_assoc position]
  | case3 position c cs hb error hl =>
    have hb : isBlank c = false := by simpa using hb
    rw [List.cons_append, scan_cons_of_error hb hl,
      scan_cons_of_error hb ((lexeme_append_blank hw bs).trans hl)]
    rfl
  | case4 position c cs hb kind length hl text error hs ih
  | case5 position c cs hb kind length hl text tokens hs ih =>
    have hb : isBlank c = false := by simpa using hb
    have hle : length ≤ cs.length := length_le_of_lexeme hl
    have hbytes : byteLength text + byteLength (cs.drop length) = byteLength (c :: cs) := by
      rw [← byteLength_append, List.cons_append, List.take_append_drop]
    rw [List.cons_append, scan_cons hb ((lexeme_append_blank hw bs).trans hl), scan_cons hb hl,
      List.take_append_of_le_length hle, List.drop_append_of_le_length hle, ih, hs,
      Nat.add_assoc position (byteLength text), hbytes]
    cases scan registry (position + byteLength (c :: cs) + w.utf8Size) bs <;> rfl

/-! ## Positions -/

theorem lexeme_add (n : Nat) :
    lexeme registry (position + n) c cs = (lexeme registry position c cs).mapError (·.shift n) := by
  simp only [lexeme]
  split
  · rfl
  · split
    · split <;> rfl
    · split <;> rfl

/-- The position that a text is read at matters to its error only. -/
theorem scan_add (n : Nat) (position : Nat) (cs : List Char) :
    scan registry (position + n) cs = (scan registry position cs).mapError (·.shift n) := by
  induction position, cs using scan.induct registry with
  | case1 position => rw [scan_nil, scan_nil]; rfl
  | case2 position c cs hb ih =>
    rw [scan_cons_blank hb, scan_cons_blank hb, Nat.add_right_comm, ih]
  | case3 position c cs hb error hl =>
    have hb : isBlank c = false := by simpa using hb
    rw [scan_cons_of_error hb hl, scan_cons_of_error hb (by rw [lexeme_add, hl]; rfl)]
    rfl
  | case4 position c cs hb kind length hl text error hs ih
  | case5 position c cs hb kind length hl text tokens hs ih =>
    have hb : isBlank c = false := by simpa using hb
    rw [scan_cons hb hl, scan_cons hb (by rw [lexeme_add, hl]; rfl), Nat.add_right_comm, ih, hs]
    rfl

/-- Two texts with a blank between them are read one after the other. If the first one has an error,
that is the error. If both have tokens, these are the tokens of the first and then of the second. If
only the second one has an error, it is that error, further on by the bytes before the second text. -/
theorem tokenize_append_blank (hw : isBlank w = true) (a b : String) :
    (∀ error, tokenize registry a = .error error →
      tokenize registry (a ++ String.singleton w ++ b) = .error error) ∧
    (∀ as bs, tokenize registry a = .ok as → tokenize registry b = .ok bs →
      tokenize registry (a ++ String.singleton w ++ b) = .ok (as ++ bs)) ∧
    ∀ as error, tokenize registry a = .ok as → tokenize registry b = .error error →
      tokenize registry (a ++ String.singleton w ++ b) =
        .error (error.shift (a.utf8ByteSize + w.utf8Size)) := by
  have htext : (a ++ String.singleton w ++ b).toList = a.toList ++ w :: b.toList := by simp
  have hread : tokenize registry (a ++ String.singleton w ++ b) =
      (tokenize registry a).bind fun as =>
        ((tokenize registry b).mapError (·.shift (a.utf8ByteSize + w.utf8Size))).map (as ++ ·) := by
    simp only [tokenize, htext]
    rw [scan_append_blank hw, Nat.zero_add, byteLength_toList, ← scan_add _ 0, Nat.zero_add]
  refine ⟨fun error ha => ?_, fun as bs ha hb => ?_, fun as error ha hb => ?_⟩
  · rw [hread, ha]
    rfl
  · rw [hread, ha, hb]
    rfl
  · rw [hread, ha, hb]
    rfl

/-- A blank of three bytes after `1+ 5é`, after `max(1` and inside `2e3`, where it parts the mark of
an exponent from its digits. -/
theorem tokenize_append_blank_sample :
    isBlank '\u2003' = true ∧
    tokenize Library.registry "1+ 5é\u2003max" = .error (.unknownIdentifier 4 "é") ∧
    tokenize Library.registry "max(1\u2003.5)" = .error (.unknownIdentifier 8 ".5)") ∧
    tokenize Library.registry "-2e\u20033" =
      .ok [⟨.operator, "-"⟩, ⟨.literal, "2"⟩, ⟨.var, "e"⟩, ⟨.literal, "3"⟩] := by
  have hblank : isBlank '\u2003' = true := by decide
  refine ⟨hblank, ?_, ?_, ?_⟩
  · exact (tokenize_append_blank hblank "1+ 5é" "max").1 _ (by decide +kernel)
  · exact (tokenize_append_blank hblank "max(1" ".5)").2.2
      [⟨.function, "max"⟩, ⟨.bracket, "("⟩, ⟨.literal, "1"⟩] (.unknownIdentifier 0 ".5)")
      (by decide +kernel) (by decide +kernel)
  · exact (tokenize_append_blank hblank "-2e" "3").2.1
      [⟨.operator, "-"⟩, ⟨.literal, "2"⟩, ⟨.var, "e"⟩] [⟨.literal, "3"⟩]
      (by decide +kernel) (by decide +kernel)

end Abacus
