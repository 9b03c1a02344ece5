/-!
# Numerals

The decimal numerals of expressions, and the larger set of spellings that a number may have in a
token handed in from outside.

`lexeme` is the longest numeral at the start of a text: digits, then a point and any number of
digits, then an exponent with at least one digit; the last two parts may be missing. `read?` reads a
whole text as a number. It also knows a sign, a point before the first digit, and the words for
infinity and for what is not a number.

* `digits_append_rest`, `lexeme_append_drop`: a text is its numeral followed by what is left of it;
* `isDigit_of_mem_digits`: the digits at the start of a text are digits.
-/

namespace Abacus.Number

/-! ## The longest numeral at the start of a text -/

/-- The digits at the start of a text. -/
def digits (cs : List Char) : List Char :=
  cs.takeWhile Char.isDigit

/-- A point and the digits after it, or nothing. -/
def fraction : List Char → List Char
  | '.' :: cs => '.' :: digits cs
  | _ => []

/-- A sign, or nothing. -/
def sign : List Char → List Char
  | '+' :: _ => ['+']
  | '-' :: _ => ['-']
  | _ => []

/-- Whether a character starts an exponent. -/
def isExponentMark (c : Char) : Bool :=
  c = 'e' ∨ c = 'E'

/-- An exponent with at least one digit, or nothing. -/
def exponent : List Char → List Char
  | [] => []
  | c :: cs =>
    let s := sign cs
    let ds := digits (cs.drop s.length)
    if isExponentMark c ∧ ds ≠ [] then c :: s ++ ds else []

/-- The longest numeral at the start of a text that begins with a digit. -/
def lexeme (cs : List Char) : List Char :=
  let whole := digits cs
  let rest := cs.drop whole.length
  let point := fraction rest
  whole ++ point ++ exponent (rest.drop point.length)

/-! ## Reading a whole text -/

/-- The number that decimal digits stand for. -/
def natOfDigits (cs : List Char) : Nat :=
  cs.foldl (fun n c => 10 * n + (c.toNat - '0'.toNat)) 0

/-- The power of ten that an exponent stands for, or `none` if the text is no exponent. No text at
all is the exponent zero. -/
def readExponent? : List Char → Option Int
  | [] => some 0
  | c :: cs =>
    let s := sign cs
    let ds := cs.drop s.length
    if isExponentMark c ∧ ds ≠ [] ∧ ds.all Char.isDigit then
      some (if s = ['-'] then -natOfDigits ds else natOfDigits ds)
    else none

/-- The float nearest to `mantissa * 10 ^ exponent`. -/
def ofDecimal (mantissa : Nat) (exponent : Int) : Float :=
  .ofScientific mantissa (exponent < 0) exponent.natAbs

/-- Reads an unsigned decimal number: digits with a point anywhere among them, at least one digit,
and an exponent or none. -/
def readDecimal? (cs : List Char) : Option Float :=
  let whole := digits cs
  let rest := cs.drop whole.length
  let point := fraction rest
  let places := point.drop 1
  if whole = [] ∧ places = [] then none
  else (readExponent? (rest.drop point.length)).map fun e =>
    ofDecimal (natOfDigits (whole ++ places)) (e - places.length)

/-- Reads an unsigned number, which may also be one of the words `inf`, `infinity` and `nan` in any
mix of cases. -/
def readUnsigned? (cs : List Char) : Option Float :=
  let lower := String.ofList (cs.map Char.toLower)
  if lower = "inf" ∨ lower = "infinity" then some (1.0 / 0.0)
  else if lower = "nan" then some (0.0 / 0.0)
  else readDecimal? cs

/-- Reads a whole text as a number. -/
def read? (cs : List Char) : Option Float :=
  match cs with
  | '-' :: rest => (readUnsigned? rest).map (- ·)
  | '+' :: rest => readUnsigned? rest
  | _ => readUnsigned? cs

/-! ## What the numeral at the start of a text is -/

theorem digits_append_rest (cs : List Char) : digits cs ++ cs.drop (digits cs).length = cs := by
  induction cs with
  | nil => rfl
  | cons c cs ih =>
    by_cases hc : c.isDigit = true <;> simp_all [digits]

theorem isDigit_of_mem_digits {c : Char} {cs : List Char} (h : c ∈ digits cs) :
    c.isDigit = true :=
  List.all_eq_true.1 (List.all_takeWhile : (cs.takeWhile Char.isDigit).all Char.isDigit = true) c h

theorem fraction_append_drop (cs : List Char) :
    fraction cs ++ cs.drop (fraction cs).length = cs := by
  unfold fraction
  split
  · simp [digits_append_rest]
  · rfl

theorem sign_append_drop (cs : List Char) : sign cs ++ cs.drop (sign cs).length = cs := by
  unfold sign
  split <;> rfl

theorem exponent_append_drop (cs : List Char) :
    exponent cs ++ cs.drop (exponent cs).length = cs := by
  cases cs with
  | nil => rfl
  | cons c cs =>
    simp only [exponent]
    split
    · have hs := sign_append_drop cs
      have hd := digits_append_rest (cs.drop (sign cs).length)
      rw [List.drop_drop] at hd
      simp only [List.cons_append, List.length_cons, List.length_append, List.drop_succ_cons,
        List.append_assoc, hd, hs]
    · rfl

/-- A text is its numeral followed by what is left of it. -/
theorem lexeme_append_drop (cs : List Char) : lexeme cs ++ cs.drop (lexeme cs).length = cs := by
  have hd := digits_append_rest cs
  have hf := fraction_append_drop (cs.drop (digits cs).length)
  have he := exponent_append_drop
    ((cs.drop (digits cs).length).drop (fraction (cs.drop (digits cs).length)).length)
  simp only [List.drop_drop] at hf he
  simp only [lexeme, List.length_append, List.append_assoc, List.drop_drop]
  rw [← Nat.add_assoc, he, hf, hd]

end Abacus.Number
