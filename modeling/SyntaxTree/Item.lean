import SyntaxTree.Literal

/-!
# Written lists

A written list is a line of items between parentheses, separated by single spaces. Items that are
written as nothing leave no separator behind, so optional parts need no special care. One atom, a
single space, is a mark instead: in front of a whole list it asks for one space before the opening
parenthesis, and anywhere else it counts as nothing.
-/

namespace SyntaxTree

/-- A raw literal that has no place in a written list. -/
structure UnprintableLiteral where
  literal : Literal
deriving DecidableEq

def UnprintableLiteral.message (error : UnprintableLiteral) : String :=
  let typeName := error.literal.typeName
  let text := String.ofList error.literal.canonical
  s!"unprintable value in s-expression: {typeName} literal {text}"

/-- One item of a written list, over a type of subtrees. -/
inductive Item (α : Type) where
  | absent
  /-- A word written as it stands. -/
  | atom (text : List Char)
  | int (value : Int64)
  | group (items : List (Item α))
  | bracket (items : List (Item α))
  | tree (subtree : α)
  /-- A raw literal. Only texts, as they stand, and integers can be written. -/
  | literal (value : Literal)

namespace Item

variable {α : Type}

def word (text : String) : Item α := .atom text.toList

/-- A group of a keyword and a subtree, or nothing when there is no subtree. -/
def clause (keyword : String) : Option α → Item α
  | none => .absent
  | some subtree => .group [word keyword, .tree subtree]

/-- A group of a keyword and bracketed subtrees, or nothing when there are no subtrees. -/
def listClause (keyword : String) : List α → Item α
  | [] => .absent
  | subtrees => .group [word keyword, .bracket (subtrees.map .tree)]

def ofOption : Option α → Item α
  | none => .absent
  | some subtree => .tree subtree

/-- The atom that asks for a space before a list. -/
def isLeadingSpace : Item α → Bool
  | .atom [' '] => true
  | _ => false

variable (write : α → Except UnprintableLiteral (List Char))

mutual

/-- The text of one item, given how subtrees are written. -/
def text : Item α → Except UnprintableLiteral (List Char)
  | .absent => .ok []
  | .atom text => .ok text
  | .int value => .ok (Text.integer value.toInt)
  | .group items => do
      let texts ← texts items
      return '(' :: (List.intercalate [' '] texts ++ [')'])
  | .bracket items => do
      let texts ← texts items
      return '[' :: (List.intercalate [' '] texts ++ [']'])
  | .tree subtree => write subtree
  | .literal (.text value) => .ok value.toList
  | .literal (.int value) => .ok (Text.integer value.toInt)
  | .literal value => .error ⟨value⟩

/-- The texts of those items that are written as something. -/
def texts : List (Item α) → Except UnprintableLiteral (List (List Char))
  | [] => .ok []
  | item :: rest =>
      if item.isLeadingSpace then
        texts rest
      else do
        let first ← text item
        let others ← texts rest
        return if first.isEmpty then others else first :: others

end

/-- A whole written list. An empty one is written as nothing. -/
def list : List (Item α) → Except UnprintableLiteral (List Char)
  | [] => .ok []
  | first :: rest =>
      if first.isLeadingSpace then do
        let text ← text write (.group rest)
        return ' ' :: text
      else
        text write (.group (first :: rest))

end Item

end SyntaxTree
