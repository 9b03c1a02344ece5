import Abacus.Proofs.Registry.History
import Abacus.Token.Scan

/-!
# Greedy reading

The plain way to find a name: try every prefix of the word that a text begins with, from the longest
to the shortest, and take the first one that is a name (`greedyName?`). A text that is read this way
gives the tokens of `tokenize`, and the same error where there is one (`tokenize_eq_tokenizeGreedily`).

What is longer than every registered name can only be a variable (`classify?_of_lt`). So nothing is
lost when prefixes outside the window are not looked up, nor when a long run of letters and digits is
taken for a variable at sight.

* `lt_length_window_iff`: the window ends before the first prefix that has too many bytes;
* `isWord_take_iff`: the prefixes that a variable may have as its name are those of the run;
* `name?_eq_greedyName?`: both ways find the same name.
-/

namespace Abacus

open Text

/-! ## Trying all prefixes -/

/-- The longest prefix of the word at the start of a text that is classified: what it is and how many
characters follow its first one. All prefixes are tried, the longest first. -/
def greedyName? (registry : Registry) (cs : List Char) : Option (TokenKind × Nat) :=
  (List.range (word cs).length).reverse.findSome? fun length =>
    (classify? registry ((word cs).take (length + 1))).map fun kind => (kind, length)

/-- The token at the start of a text that begins with `c`, which is not blank: a separator or a
numeral as ever, and any other token as the longest name. -/
def greedyLexeme (registry : Registry) (position : Nat) (c : Char) (cs : List Char) :
    Except LexError (TokenKind × Nat) :=
  if c = Name.separator ∨ c.isDigit = true then lexeme registry position c cs
  else
    match greedyName? registry (c :: cs) with
    | some token => .ok token
    | none => .error (.unknownIdentifier position (.ofList (word (c :: cs))))

/-- The tokens of a text whose first character is at the given position, read greedily. -/
def scanGreedily (registry : Registry) (position : Nat) : List Char → Except LexError (List Token)
  | [] => .ok []
  | c :: cs =>
    if isBlank c then scanGreedily registry (position + c.utf8Size) cs
    else
      match greedyLexeme registry position c cs with
      | .error error => .error error
      | .ok (kind, length) =>
        let text := c :: cs.take length
        match scanGreedily registry (position + byteLength text) (cs.drop length) with
        | .error error => .error error
        | .ok tokens => .ok (⟨kind, .ofList text⟩ :: tokens)
termination_by cs => cs.length
decreasing_by
  · simp
  · simp only [List.length_drop, List.length_cons]
    omega

/-- The tokens of a text, read greedily. -/
def tokenizeGreedily (registry : Registry) (text : String) : Except LexError (List Token) :=
  scanGreedily registry 0 text.toList

variable {registry : Registry} {cs : List Char} {n : Nat}

/-! ## Prefixes -/

theorem byteLength_take_le {m : Nat} (h : m ≤ n) : byteLength (cs.take m) ≤ byteLength (cs.take n) := by
  obtain ⟨more, hm⟩ := List.take_prefix_take_left h (l := cs)
  rw [← hm, byteLength_append]
  exact Nat.le_add_right _ _

theorem word_take (h : n ≤ (word cs).length) : (word cs).take n = cs.take n := by
  have hp : word cs <+: cs := List.takeWhile_prefix _
  obtain ⟨more, hm⟩ := hp
  conv => rhs; rw [← hm]
  rw [List.take_append_of_le_length h]

theorem length_word_le : (word cs).length ≤ cs.length :=
  (List.takeWhile_prefix _).length_le

theorem length_window_le (room : Nat) : (window room cs).length ≤ (word cs).length := by
  induction cs generalizing room with
  | nil => simp [window]
  | cons c cs ih =>
    simp only [window, word_cons]
    by_cases hb : isBlank c = true
    · simp [hb]
    · by_cases hr : room < c.utf8Size
      · simp [hr]
      · simpa [hb, hr] using ih (room - c.utf8Size)

/-- The window ends before the first prefix that has too many bytes. -/
theorem lt_length_window_iff {room : Nat} (hn : n < (word cs).length) :
    n < (window room cs).length ↔ byteLength (cs.take (n + 1)) ≤ room := by
  induction cs generalizing room n with
  | nil => simp at hn
  | cons c cs ih =>
    rw [word_cons] at hn
    split at hn
    · simp at hn
    · rename_i hb
      rw [List.take_succ_cons, byteLength_cons]
      by_cases hr : room < c.utf8Size
      · have hw : window room (c :: cs) = [] := by simp [window, hr]
        simp only [hw, List.length_nil, Nat.not_lt_zero, false_iff]
        omega
      · have hw : window room (c :: cs) = c :: window (room - c.utf8Size) cs := by
          simp [window, hb, hr]
        rw [hw, List.length_cons]
        cases n with
        | zero =>
          simp only [List.take_zero, byteLength_nil]
          omega
        | succ n =>
          have hroom : n < (window (room - c.utf8Size) cs).length ↔
              byteLength (cs.take (n + 1)) ≤ room - c.utf8Size := ih (Nat.lt_of_succ_lt_succ hn)
          omega

theorem length_takeWhile_isAlphanum_le : (cs.takeWhile Char.isAlphanum).length ≤ (word cs).length := by
  induction cs with
  | nil => simp
  | cons c cs ih =>
    rw [List.takeWhile_cons, word_cons]
    split
    · rename_i hc
      simpa [not_isBlank_of_isAlphanum hc] using ih
    · simp

theorem length_variableRun_le : (variableRun cs).length ≤ (word cs).length := by
  cases cs with
  | nil => simp [variableRun]
  | cons c cs =>
    simp only [variableRun]
    split
    · rename_i hc
      have hb := not_isBlank_of_isAlphanum (Name.isAlphanum_of_isAlpha hc)
      have hle : (cs.takeWhile Char.isAlphanum).length ≤ (word cs).length :=
        length_takeWhile_isAlphanum_le
      simpa [word_cons, hb] using hle
    · simp

theorem take_length_variableRun : cs.take (variableRun cs).length = variableRun cs := by
  cases cs with
  | nil => rfl
  | cons c cs =>
    simp only [variableRun]
    split
    · rw [List.length_cons, List.take_succ_cons, ← List.prefix_iff_eq_take.1 (List.takeWhile_prefix _)]
    · rfl

theorem all_take_iff {p : Char → Bool} (hn : n ≤ cs.length) :
    (cs.take n).all p = true ↔ n ≤ (cs.takeWhile p).length := by
  induction cs generalizing n with
  | nil => simpa using hn
  | cons c cs ih =>
    cases n with
    | zero => simp
    | succ n =>
      rw [List.take_succ_cons, List.all_cons, List.takeWhile_cons]
      cases p c with
      | false => simp
      | true => simpa using ih (Nat.le_of_succ_le_succ hn)

/-- The prefixes that a variable may have as its name are those of the run of letters and digits. -/
theorem isWord_take_iff (hn : n < cs.length) :
    Name.isWord (cs.take (n + 1)) = true ↔ n < (variableRun cs).length := by
  cases cs with
  | nil => simp at hn
  | cons c cs =>
    rw [List.take_succ_cons, Name.isWord, Name.spelled_cons, variableRun]
    cases c.isAlpha with
    | false => simp
    | true =>
      have := all_take_iff (p := Char.isAlphanum) (Nat.le_of_lt_succ hn)
      simpa [Nat.lt_succ_iff] using this

/-! ## Long names -/

/-- What has more bytes than every registered name is a variable or nothing. -/
theorem classify?_of_lt (h : registry.Reachable) (hl : max registry.longestName 1 < byteLength cs) :
    classify? registry cs = if Name.isWord cs then some .var else none := by
  have hfind : ∀ kind, registry.find? (String.ofList cs) kind = none := by
    intro kind
    cases hf : registry.find? (String.ofList cs) kind with
    | none => rfl
    | some op =>
      have hle := h.utf8ByteSize_le hf
      rw [utf8ByteSize_ofList] at hle
      omega
  have hcall : isCallSymbol cs = false := by
    rw [Bool.eq_false_iff]
    intro hc
    have hone : byteLength cs = 1 := by
      rcases of_decide_eq_true hc with rfl | rfl <;> rfl
    omega
  simp [classify?, Registry.isFunction, Registry.isOperator, Registry.isBracket, Registry.bracket?,
    hfind, hcall, Name.isVariable]

/-! ## The same name -/

/-- Prefixes that are nothing may be left out at the long end. -/
theorem longestPrefix?_of_le {classify : List Char → Option TokenKind} {m : Nat} (hmn : m ≤ n)
    (h : ∀ k, m ≤ k → k < n → classify (cs.take (k + 1)) = none) :
    longestPrefix? classify cs n = longestPrefix? classify cs m := by
  induction hmn with
  | refl => rfl
  | @step n hmn ih =>
    rw [longestPrefix?, h n hmn (Nat.lt_succ_self n)]
    exact ih fun k hm hk => h k hm (Nat.lt_succ_of_lt hk)

/-- Trying the first prefixes of the word, the longest first, is the recursion on their number. -/
theorem findSome?_eq_longestPrefix? (hn : n ≤ (word cs).length) :
    ((List.range n).reverse.findSome? fun length =>
      (classify? registry ((word cs).take (length + 1))).map fun kind => (kind, length)) =
    longestPrefix? (classify? registry) cs n := by
  induction n with
  | zero => rfl
  | succ n ih =>
    rw [List.range_succ, List.reverse_append, List.reverse_singleton, List.singleton_append,
      List.findSome?_cons, word_take hn, longestPrefix?]
    cases classify? registry (cs.take (n + 1)) with
    | none => exact ih (Nat.le_of_succ_le hn)
    | some kind => rfl

theorem greedyName?_eq_longestPrefix? :
    greedyName? registry cs = longestPrefix? (classify? registry) cs (word cs).length :=
  findSome?_eq_longestPrefix? (Nat.le_refl _)

/-- The bounded search finds the name that trying all prefixes finds. -/
theorem name?_eq_greedyName? (h : registry.Reachable) :
    name? registry cs = greedyName? registry cs := by
  have hword : (word cs).length ≤ cs.length := length_word_le
  have hrun : (variableRun cs).length ≤ (word cs).length := length_variableRun_le
  rw [greedyName?_eq_longestPrefix?, name?]
  split
  · -- The run is longer than every registered name: it is a variable, and nothing longer is a name.
    rename_i hlong
    have hpos : 0 < (variableRun cs).length := by
      rw [List.length_pos_iff]
      intro hnil
      simp [hnil] at hlong
    have hbytes : ∀ n, (variableRun cs).length ≤ n →
        max registry.longestName 1 < byteLength (cs.take n) := by
      intro n hn
      refine Nat.lt_of_lt_of_le hlong ?_
      rw [← take_length_variableRun]
      exact byteLength_take_le hn
    refine (longestPrefix?_eq_some_iff.2 ⟨by omega, ?_, fun n hn hlt => ?_⟩).symm
    · rw [classify?_of_lt h (hbytes _ (by omega)), if_pos]
      exact (isWord_take_iff (by omega)).2 (by omega)
    · rw [classify?_of_lt h (hbytes _ (by omega)), if_neg]
      rw [isWord_take_iff (by omega)]
      omega
  · -- A prefix outside the window has too many bytes for a registered name, and is not in the run.
    rename_i hshort
    refine (longestPrefix?_of_le (length_window_le _) fun n hn hlt => ?_).symm
    have hbytes : max registry.longestName 1 < byteLength (cs.take (n + 1)) := by
      rw [← Nat.not_le, ← lt_length_window_iff hlt]
      omega
    rw [classify?_of_lt h hbytes, if_neg]
    rw [isWord_take_iff (by omega)]
    intro hn
    have hle : byteLength (cs.take (n + 1)) ≤ byteLength (cs.take (variableRun cs).length) :=
      byteLength_take_le hn
    rw [take_length_variableRun] at hle
    omega

/-! ## The same tokens -/

theorem lexeme_eq_greedyLexeme (h : registry.Reachable) (position : Nat) (c : Char) :
    lexeme registry position c cs = greedyLexeme registry position c cs := by
  by_cases hc : c = Name.separator ∨ c.isDigit = true
  · rw [greedyLexeme, if_pos hc]
  · obtain ⟨hs, hd⟩ := not_or.1 hc
    cases hg : greedyName? registry (c :: cs) <;>
      simp [lexeme, greedyLexeme, hs, hd, name?_eq_greedyName? h, hg]

/-- A text that begins with a token goes on after it. -/
theorem scanGreedily_cons {position : Nat} {c : Char} {kind : TokenKind} {length : Nat}
    (hb : isBlank c = false) (h : greedyLexeme registry position c cs = .ok (kind, length)) :
    scanGreedily registry position (c :: cs) =
      (scanGreedily registry (position + byteLength (c :: cs.take length)) (cs.drop length)).map
        (⟨kind, .ofList (c :: cs.take length)⟩ :: ·) := by
  rw [scanGreedily, hb, h]
  simp only [Bool.false_eq_true, if_false]
  cases scanGreedily registry (position + byteLength (c :: cs.take length)) (cs.drop length) <;> rfl

theorem scan_eq_scanGreedily (h : registry.Reachable) (position : Nat) (cs : List Char) :
    scan registry position cs = scanGreedily registry position cs := by
  induction position, cs using scan.induct registry with
  | case1 position => rw [scan_nil, scanGreedily]
  | case2 position c cs hb ih => rw [scan_cons_blank hb, ih, scanGreedily, if_pos hb]
  | case3 position c cs hb error hl =>
    rw [scan_cons_of_error (by simpa using hb) hl, scanGreedily, if_neg hb,
      ← lexeme_eq_greedyLexeme h, hl]
  | case4 position c cs hb kind length hl text error hs ih
  | case5 position c cs hb kind length hl text tokens hs ih =>
    rw [scan_cons (by simpa using hb) hl, ih,
      scanGreedily_cons (by simpa using hb) (lexeme_eq_greedyLexeme h position c ▸ hl)]

/-- After any history of the registry, reading a text gives the tokens that trying all prefixes of
every word gives, or the same error at the same place. -/
theorem tokenize_eq_tokenizeGreedily (changes : List Registry.Change) (text : String) :
    tokenize (.ofHistory changes) text = tokenizeGreedily (.ofHistory changes) text :=
  scan_eq_scanGreedily (Registry.reachable_ofHistory changes) 0 text.toList

end Abacus
