import SyntaxTree.Literal

/-!
# Tokens

A token is a literal with the line and the column where it was found. Nodes keep the token they
were built from for diagnostics only.
-/

namespace SyntaxTree

structure Token where
  value : Literal
  line : Nat := 0
  column : Nat := 0
deriving DecidableEq

/-- Line, column and value, as diagnostics show a token. -/
def Token.text (token : Token) : List Char :=
  Nat.toDigits 10 token.line ++ ':' ::
    (Nat.toDigits 10 token.column ++ ':' :: ' ' :: token.value.canonical)

end SyntaxTree
