import Abacus.Number.Numeral
import Abacus.Registry
import Abacus.Text.Blank
import Abacus.Text.ByteLength
import Abacus.Token.Basic

/-!
# Reading a text as tokens

`tokenize` cuts a text into tokens. Blanks separate tokens and are dropped. A comma is a token, a
digit begins a numeral, and anything else begins a name: the longest one that is a function, an
operator, a bracket or a variable.

No known name is longer than `Registry.longestName`, so longer names are variables and need no
look-up: a run of letters and digits that exceeds the limit is a variable, and otherwise only the
prefixes within the limit are tried.

* `longestPrefix?_eq_some_iff`: the name found is the longest prefix that is classified;
* `scan_nil`, `scan_cons_blank`, `scan_cons`: the text is read token by token.
-/

namespace Abacus

open Text

/-- Whether a text is one of the parentheses around the arguments of a call. -/
def isCallSymbol (cs : List Char) : Bool :=
  cs = [Name.callOpen] ∨ cs = [Name.callClose]

/-- What a name is: a function before an operator, an operator before a bracket, and a variable if
it is nothing else. -/
def classify? (registry : Registry) (cs : List Char) : Option TokenKind :=
  let name := String.ofList cs
  if registry.isFunction name then some .function
  else if registry.isOperator name then some .operator
  else if isCallSymbol cs ∨ registry.isBracket name then some .bracket
  else if Name.isVariable name then some .var
  else none

/-- The run of letters and digits at the start of a text that begins with a letter. -/
def variableRun : List Char → List Char
  | [] => []
  | c :: cs => if c.isAlpha then c :: cs.takeWhile Char.isAlphanum else []

/-- The longest prefix without blanks that takes at most `room` bytes. -/
def window (room : Nat) : List Char → List Char
  | [] => []
  | c :: cs => if isBlank c ∨ room < c.utf8Size then [] else c :: window (room - c.utf8Size) cs

/-- The longest prefix of at most `length` characters, and at least one, that is classified: what it
is and how many characters follow its first. -/
def longestPrefix? (classify : List Char → Option TokenKind) (cs : List Char) :
    Nat → Option (TokenKind × Nat)
  | 0 => none
  | length + 1 =>
    match classify (cs.take (length + 1)) with
    | some kind => some (kind, length)
    | none => longestPrefix? classify cs length

/-- The numeral at the start of a text: how many characters follow its first one, unless its value
is not finite. -/
def numeral? (cs : List Char) : Option Nat :=
  let text := Number.lexeme cs
  match Number.read? text with
  | some value => if value.isFinite then some (text.length - 1) else none
  | none => none

/-- The name at the start of a text: what it is and how many characters follow its first one. -/
def name? (registry : Registry) (cs : List Char) : Option (TokenKind × Nat) :=
  let limit := max registry.longestName 1
  let run := variableRun cs
  if limit < byteLength run then some (.var, run.length - 1)
  else longestPrefix? (classify? registry) cs (window limit cs).length

/-- The token at the start of a text that begins with `c`, which is not blank: what it is and how
many characters follow its first one. -/
def lexeme (registry : Registry) (position : Nat) (c : Char) (cs : List Char) :
    Except LexError (TokenKind × Nat) :=
  if c = Name.separator then .ok (.separator, 0)
  else if c.isDigit then
    match numeral? (c :: cs) with
    | some length => .ok (.literal, length)
    | none => .error (.malformedLiteral position (.ofList (word (c :: cs))))
  else
    match name? registry (c :: cs) with
    | some token => .ok token
    | none => .error (.unknownIdentifier position (.ofList (word (c :: cs))))

/-- The tokens of a text whose first character is at the given position. -/
def scan (registry : Registry) (position : Nat) : List Char → Except LexError (List Token)
  | [] => .ok []
  | c :: cs =>
    if isBlank c then scan registry (position + c.utf8Size) cs
    else
      match lexeme registry position c cs with
      | .error error => .error error
      | .ok (kind, length) =>
        let text := c :: cs.take length
        match scan registry (position + byteLength text) (cs.drop length) with
        | .error error => .error error
        | .ok tokens => .ok (⟨kind, .ofList text⟩ :: tokens)
termination_by cs => cs.length
decreasing_by
  · simp
  · simp only [List.length_drop, List.length_cons]
    omega

/-- The tokens of a text. -/
def tokenize (registry : Registry) (text : String) : Except LexError (List Token) :=
  scan registry 0 text.toList

variable {registry : Registry} {position : Nat} {c : Char} {cs : List Char}

@[simp] theorem longestPrefix?_zero (classify : List Char → Option TokenKind) :
    longestPrefix? classify cs 0 = none := rfl

theorem longestPrefix?_eq_some_iff {classify : List Char → Option TokenKind} {length : Nat}
    {kind : TokenKind} {n : Nat} :
    longestPrefix? classify cs length = some (kind, n) ↔
      n < length ∧ classify (cs.take (n + 1)) = some kind ∧
        ∀ m, n < m → m < length → classify (cs.take (m + 1)) = none := by
  induction length with
  | zero => simp
  | succ length ih =>
    simp only [longestPrefix?]
    split
    · rename_i kind' hk
      simp only [Option.some.injEq, Prod.mk.injEq]
      constructor
      · rintro ⟨rfl, rfl⟩
        exact ⟨by omega, hk, fun m h₁ h₂ => absurd h₂ (by omega)⟩
      · rintro ⟨hn, hc, hm⟩
        have : n = length := Nat.le_antisymm (by omega) (Nat.le_of_not_lt fun h =>
          Option.some_ne_none kind' (hk.symm.trans (hm length h (by omega))))
        subst this
        exact ⟨Option.some.inj (hk.symm.trans hc), rfl⟩
    · rename_i hk
      rw [ih]
      constructor
      · rintro ⟨hn, hc, hm⟩
        refine ⟨by omega, hc, fun m h₁ h₂ => ?_⟩
        rcases Nat.lt_or_eq_of_le (Nat.le_of_lt_succ h₂) with h | rfl
        · exact hm m h₁ h
        · exact hk
      · rintro ⟨hn, hc, hm⟩
        have : n ≠ length := by
          rintro rfl
          exact Option.some_ne_none kind (hc.symm.trans hk)
        exact ⟨by omega, hc, fun m h₁ h₂ => hm m h₁ (by omega)⟩

@[simp] theorem scan_nil : scan registry position [] = .ok [] := by
  rw [scan]

theorem scan_cons_blank (h : isBlank c = true) :
    scan registry position (c :: cs) = scan registry (position + c.utf8Size) cs := by
  rw [scan, if_pos h]

theorem scan_cons_of_error {error : LexError} (hb : isBlank c = false)
    (h : lexeme registry position c cs = .error error) :
    scan registry position (c :: cs) = .error error := by
  rw [scan, hb, h]
  rfl

/-- A text that begins with a token goes on after it. -/
theorem scan_cons {kind : TokenKind} {length : Nat} (hb : isBlank c = false)
    (h : lexeme registry position c cs = .ok (kind, length)) :
    scan registry position (c :: cs) =
      (scan registry (position + byteLength (c :: cs.take length)) (cs.drop length)).map
        (⟨kind, .ofList (c :: cs.take length)⟩ :: ·) := by
  rw [scan, hb, h]
  simp only [Bool.false_eq_true, ↓reduceIte]
  cases scan registry (position + byteLength (c :: cs.take length)) (cs.drop length) <;> rfl

end Abacus
