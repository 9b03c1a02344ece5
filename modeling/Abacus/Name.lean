/-!
# Names

Which spellings a function, an operator, a bracket or a variable may have. All of them are made of
ASCII letters, digits and punctuation, and none begins with a digit. The comma belongs to no name,
and the two parentheses belong to brackets only.

* `isVariable_eq_isFunction`: variables are named like functions;
* `isOperator_of_isVariable`, `isBracket_of_isOperator`: a wider class has every name of a narrower
  one.
-/

namespace Abacus

/-- The three namespaces that operations are registered in. -/
inductive NameClass where
  /-- Names of functions. -/
  | function
  /-- Names of operators. -/
  | operator
  /-- Names of brackets. -/
  | bracket
deriving DecidableEq

/-- The word for a namespace in a message. -/
def NameClass.text : NameClass → String
  | .function => "function"
  | .operator => "operator"
  | .bracket => "bracket"

namespace Name

/-- The character between two arguments of a call. -/
def separator : Char := ','

/-- The character that opens the arguments of a call. -/
def callOpen : Char := '('

/-- The character that closes the arguments of a call. -/
def callClose : Char := ')'

/-- Whether a character is ASCII punctuation. -/
def isPunctuation (c : Char) : Bool :=
  (0x21 ≤ c.toNat && c.toNat ≤ 0x2F) || (0x3A ≤ c.toNat && c.toNat ≤ 0x40) ||
    (0x5B ≤ c.toNat && c.toNat ≤ 0x60) || (0x7B ≤ c.toNat && c.toNat ≤ 0x7E)

/-- Whether a character has a meaning of its own around the arguments of a call. -/
def isReserved (c : Char) : Bool :=
  c = separator ∨ c = callOpen ∨ c = callClose

/-- Whether a text is one character of the class `first` and then characters of the class `part`. -/
def spelled (first part : Char → Bool) : List Char → Bool
  | [] => false
  | c :: cs => first c && cs.all part

/-- A letter, then letters and digits. -/
def isWord (cs : List Char) : Bool :=
  spelled Char.isAlpha Char.isAlphanum cs

/-- Whether a function may have the name. -/
def isFunction (name : String) : Bool :=
  isWord name.toList

/-- Whether a variable may have the name. -/
def isVariable (name : String) : Bool :=
  isWord name.toList

/-- Whether an operator may have the name: letters, digits and punctuation that is not reserved, and
no digit at the start. -/
def isOperator (name : String) : Bool :=
  spelled (fun c => (c.isAlpha || isPunctuation c) && !isReserved c)
    (fun c => (c.isAlphanum || isPunctuation c) && !isReserved c) name.toList

/-- Whether a bracket may have the name: letters, digits and punctuation other than the separator,
and no digit at the start. -/
def isBracket (name : String) : Bool :=
  spelled (fun c => (c.isAlpha || isPunctuation c) && c != separator)
    (fun c => (c.isAlphanum || isPunctuation c) && c != separator) name.toList

/-- Whether a name is valid in a namespace. -/
def isValid : NameClass → String → Bool
  | .function => isFunction
  | .operator => isOperator
  | .bracket => isBracket

@[simp] theorem spelled_nil (first part : Char → Bool) : spelled first part [] = false := rfl

@[simp] theorem spelled_cons (first part : Char → Bool) (c : Char) (cs : List Char) :
    spelled first part (c :: cs) = (first c && cs.all part) := rfl

/-- A spelling stays one when both classes of characters grow. -/
theorem spelled_mono {first part first' part' : Char → Bool} {cs : List Char}
    (hf : ∀ c, first c = true → first' c = true) (hp : ∀ c, part c = true → part' c = true)
    (h : spelled first part cs = true) : spelled first' part' cs = true := by
  cases cs with
  | nil => simp at h
  | cons c cs =>
    simp only [spelled_cons, Bool.and_eq_true, List.all_eq_true] at h ⊢
    exact ⟨hf c h.1, fun d hd => hp d (h.2 d hd)⟩

theorem isVariable_eq_isFunction (name : String) : isVariable name = isFunction name := rfl

theorem not_isReserved_of_isAlphanum {c : Char} (h : c.isAlphanum = true) :
    isReserved c = false := by
  rw [Bool.eq_false_iff]
  intro hr
  simp only [isReserved, decide_eq_true_eq] at hr
  rcases hr with rfl | rfl | rfl <;> exact absurd h (by decide)

theorem isAlphanum_of_isAlpha {c : Char} (h : c.isAlpha = true) : c.isAlphanum = true := by
  simp [Char.isAlphanum, h]

theorem isOperator_of_isVariable {name : String} (h : isVariable name = true) :
    isOperator name = true := by
  refine spelled_mono (fun c hc => ?_) (fun c hc => ?_) h
  · simp [hc, not_isReserved_of_isAlphanum (isAlphanum_of_isAlpha hc)]
  · simp [hc, not_isReserved_of_isAlphanum hc]

theorem isBracket_of_isOperator {name : String} (h : isOperator name = true) :
    isBracket name = true := by
  have hsep : ∀ c, isReserved c = false → (c != separator) = true := by
    intro c hc
    simp only [isReserved, decide_eq_false_iff_not, not_or] at hc
    simpa using hc.1
  refine spelled_mono (fun c hc => ?_) (fun c hc => ?_) h
  · simp only [Bool.and_eq_true, Bool.not_eq_true'] at hc ⊢
    exact ⟨hc.1, hsep c hc.2⟩
  · simp only [Bool.and_eq_true, Bool.not_eq_true'] at hc ⊢
    exact ⟨hc.1, hsep c hc.2⟩

end Name

end Abacus
