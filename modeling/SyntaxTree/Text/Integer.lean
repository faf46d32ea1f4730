/-!
# Integers in decimal

The decimal text of an integer: its digits, after a minus sign if it is negative.
-/

namespace SyntaxTree.Text

def integer : Int → List Char
  | .ofNat natural => Nat.toDigits 10 natural
  | .negSucc natural => '-' :: Nat.toDigits 10 (natural + 1)

end SyntaxTree.Text
