import Abacus.Name

/-!
# Tokens

A token is a piece of an expression and what it was recognised as. `Token.isSymbol` asks for a token
by its spelling alone, whatever its kind.
-/

namespace Abacus

/-- What a token was recognised as. -/
inductive TokenKind where
  /-- The mark between two arguments. -/
  | separator
  /-- A numeral. -/
  | literal
  /-- The name of a function. -/
  | function
  /-- The spelling of an operator of any kind. -/
  | operator
  /-- A bracket, or a parenthesis around arguments. -/
  | bracket
  /-- The name of a variable. -/
  | var
deriving DecidableEq

/-- A piece of an expression. -/
structure Token where
  /-- What it was recognised as. -/
  kind : TokenKind
  /-- Its spelling. -/
  text : String
deriving DecidableEq

/-- Whether a token is spelled with the one character. -/
def Token.isSymbol (token : Token) (symbol : Char) : Bool :=
  token.text.toList = [symbol]

theorem Token.isSymbol_iff {token : Token} {symbol : Char} :
    token.isSymbol symbol = true ↔ token.text.toList = [symbol] := by
  simp [isSymbol]

theorem Token.text_of_isSymbol {token : Token} {symbol : Char} (h : token.isSymbol symbol = true) :
    token.text = String.ofList [symbol] := by
  rw [← isSymbol_iff.1 h, String.ofList_toList]

end Abacus
