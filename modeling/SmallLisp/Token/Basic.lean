/-!
# Tokens

A token is a piece of source text together with the class it belongs to.
-/

namespace SmallLisp

/-- The classes of tokens. -/
inductive TokenKind where
  | openParen
  | closeParen
  | quote
  | string
  /-- A bare word: a symbol, a number or a constant. -/
  | word
  /-- A token of no class that the reader knows. -/
  | other
  deriving DecidableEq, Repr

/-- A piece of source text and its class. -/
structure Token where
  kind : TokenKind
  text : String
  deriving DecidableEq, Repr

/-- The character that quotes the expression behind it. -/
def Token.quoteMark : Char := '\x27'

end SmallLisp
