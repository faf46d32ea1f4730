import SyntaxTree.ShortestDecimal

/-!
# JSON values

A JSON value keeps the members of an object in order and keeps repeated ones. Integers are apart
from other numbers. A value has two texts: the compact one on one line, and the indented one with
a line for each element and member.
-/

namespace SyntaxTree

inductive Json where
  | null
  | bool (value : Bool)
  | integer (value : Int)
  | real (value : Binary64)
  | text (value : String)
  | array (elements : List Json)
  | object (members : List (String × Json))

namespace Json

/--
JSON reals are positional from `1e-5` up to `1e16`, show a plus sign, and send an exact tie to the
even digit.
-/
def realFormat : RealFormat where
  tie := .toEven
  least := -5
  bound := 16
  showsPlus := true

/-- The escapes of a text: quotes, backslashes and the controls below the space, nothing else. -/
def escapedChar (char : Char) : List Char :=
  match char with
  | '"' => ['\\', '"']
  | '\\' => ['\\', '\\']
  | '\x08' => ['\\', 'b']
  | '\x0c' => ['\\', 'f']
  | '\n' => ['\\', 'n']
  | '\r' => ['\\', 'r']
  | '\t' => ['\\', 't']
  | char =>
      if char.toNat < 0x20 then
        '\\' :: 'u' :: '0' :: '0' :: Nat.digitChar (char.toNat / 16) ::
          [Nat.digitChar (char.toNat % 16)]
      else
        [char]

def textLiteral (text : String) : List Char :=
  '"' :: (text.toList.flatMap escapedChar ++ ['"'])

/-- The text of a value that is neither an array nor an object. -/
def scalar : Json → List Char
  | .bool true => ['t', 'r', 'u', 'e']
  | .bool false => ['f', 'a', 'l', 's', 'e']
  | .integer value => Text.integer value
  | .real value => value.text realFormat
  | .text value => textLiteral value
  | _ => ['n', 'u', 'l', 'l']

mutual

/-- The text without blanks. -/
def compact : Json → List Char
  | .array elements => '[' :: (List.intercalate [','] (compactElements elements) ++ [']'])
  | .object members => '{' :: (List.intercalate [','] (compactMembers members) ++ ['}'])
  | value => value.scalar

def compactElements : List Json → List (List Char)
  | [] => []
  | element :: rest => compact element :: compactElements rest

def compactMembers : List (String × Json) → List (List Char)
  | [] => []
  | (name, value) :: rest =>
      (textLiteral name ++ ':' :: compact value) :: compactMembers rest

end

/-- Items on lines of their own, two spaces deeper than the brackets around them. -/
def indented (depth : Nat) (opening closing : Char) : List (List Char) → List Char
  | [] => [opening, closing]
  | items =>
      let line := '\n' :: List.replicate (2 * (depth + 1)) ' '
      opening :: (line ++ List.intercalate (',' :: line) items ++
        '\n' :: (List.replicate (2 * depth) ' ' ++ [closing]))

mutual

/-- The indented text at a depth. Empty arrays and objects stay on their line. -/
def pretty (depth : Nat) : Json → List Char
  | .array elements => indented depth '[' ']' (prettyElements (depth + 1) elements)
  | .object members => indented depth '{' '}' (prettyMembers (depth + 1) members)
  | value => value.scalar

def prettyElements (depth : Nat) : List Json → List (List Char)
  | [] => []
  | element :: rest => pretty depth element :: prettyElements depth rest

def prettyMembers (depth : Nat) : List (String × Json) → List (List Char)
  | [] => []
  | (name, value) :: rest =>
      (textLiteral name ++ ':' :: ' ' :: pretty depth value) :: prettyMembers depth rest

end

end Json

end SyntaxTree
