/-!
# Blank characters

`isBlank` is the White_Space property of the Unicode standard, as a table of code-point ranges.
Blanks separate the tokens of an expression, and `trim` takes them off both ends of a line.

* `isBlank_of_isWhitespace`: the blanks include the ASCII ones;
* `not_isBlank_of_isAlphanum`: no ASCII letter or digit is blank;
* `word_append_blank`: the word at the start of a text ends before its first blank.
-/

namespace Abacus.Text

/-- The code points with the property White_Space, as ranges with both ends included. -/
def blankRanges : List (Nat × Nat) :=
  [(0x9, 0xD), (0x20, 0x20), (0x85, 0x85), (0xA0, 0xA0), (0x1680, 0x1680), (0x2000, 0x200A),
    (0x2028, 0x2029), (0x202F, 0x202F), (0x205F, 0x205F), (0x3000, 0x3000)]

/-- Whether a character is white space. -/
def isBlank (c : Char) : Bool :=
  blankRanges.any fun range => range.1 ≤ c.toNat && c.toNat ≤ range.2

/-- The characters before the first blank. -/
def word (cs : List Char) : List Char :=
  cs.takeWhile (!isBlank ·)

/-- The text without the blanks at its two ends. -/
def trim (cs : List Char) : List Char :=
  ((cs.dropWhile isBlank).reverse.dropWhile isBlank).reverse

theorem isBlank_iff {c : Char} :
    isBlank c = true ↔ ∃ range ∈ blankRanges, range.1 ≤ c.toNat ∧ c.toNat ≤ range.2 := by
  simp [isBlank]

theorem isBlank_of_isWhitespace {c : Char} (h : c.isWhitespace = true) : isBlank c = true := by
  simp only [Char.isWhitespace, Bool.or_eq_true, decide_eq_true_eq] at h
  rcases h with ((rfl | rfl) | rfl) | rfl <;> decide

/-- The ASCII letters and digits, by their code points. -/
theorem isAlphanum_iff {c : Char} :
    c.isAlphanum = true ↔
      ((65 ≤ c.toNat ∧ c.toNat ≤ 90) ∨ (97 ≤ c.toNat ∧ c.toNat ≤ 122)) ∨
        (48 ≤ c.toNat ∧ c.toNat ≤ 57) := by
  change ((decide ((65 : UInt32) ≤ c.val ∧ c.val ≤ 90) ||
    (decide ((97 : UInt32) ≤ c.val) && decide (c.val ≤ 122))) ||
    (decide ((48 : UInt32) ≤ c.val) && decide (c.val ≤ 57))) = true ↔ _
  simp [UInt32.le_iff_toNat_le]

theorem not_isBlank_of_isAlphanum {c : Char} (h : c.isAlphanum = true) : isBlank c = false := by
  rw [Bool.eq_false_iff, ne_eq, isBlank_iff]
  rintro ⟨range, hr, hlo, hhi⟩
  rw [isAlphanum_iff] at h
  simp only [blankRanges, List.mem_cons, List.not_mem_nil, or_false] at hr
  rcases hr with rfl | rfl | rfl | rfl | rfl | rfl | rfl | rfl | rfl | rfl <;>
    simp only at hlo hhi <;> omega

@[simp] theorem word_nil : word [] = [] := rfl

theorem word_cons (c : Char) (cs : List Char) :
    word (c :: cs) = if isBlank c then [] else c :: word cs := by
  simp only [word, List.takeWhile_cons]
  cases isBlank c <;> rfl

/-- A word ends before the first blank, whatever follows it. -/
theorem word_append_blank (cs : List Char) {w : Char} (hw : isBlank w = true) (rest : List Char) :
    word (cs ++ w :: rest) = word cs := by
  induction cs with
  | nil => simp [word_cons, hw]
  | cons c cs ih => simp only [List.cons_append, word_cons, ih]

theorem not_isBlank_of_mem_word {c : Char} {cs : List Char} (h : c ∈ word cs) :
    isBlank c = false := by
  induction cs with
  | nil => simp at h
  | cons d cs ih =>
    rw [word_cons] at h
    split at h
    · simp at h
    · rename_i hd
      rcases List.mem_cons.1 h with rfl | h
      · simpa using hd
      · exact ih h

end Abacus.Text
