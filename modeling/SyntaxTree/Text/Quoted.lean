import SyntaxTree.Text.DefaultIgnorable
import SyntaxTree.Text.GraphemeExtend
import SyntaxTree.Text.Unprintable

/-!
# Quoted text

Text is quoted between double quotes so that it stays on one line and shows every character:
quotes, backslashes and the common controls have short escapes, and a character that has no glyph,
that is shown as nothing or that would attach to its neighbour is written by its number.
-/

namespace SyntaxTree.Text

/-- The quoted form of one character. An apostrophe needs no escape between double quotes. -/
def quotedChar (char : Char) : List Char :=
  match char with
  | '\x00' => ['\\', '0']
  | '\t' => ['\\', 't']
  | '\n' => ['\\', 'n']
  | '\r' => ['\\', 'r']
  | '"' => ['\\', '"']
  | '\\' => ['\\', '\\']
  | char =>
      if isUnprintable char || isDefaultIgnorable char || isGraphemeExtend char then
        '\\' :: 'u' :: '{' :: (Nat.toDigits 16 char.toNat ++ ['}'])
      else
        [char]

def quoted (text : String) : List Char :=
  '"' :: (text.toList.flatMap quotedChar ++ ['"'])

end SyntaxTree.Text
