import SyntaxTree.Node
import SyntaxTree.Item

/-!
# The canonical form

Every tree is written on one line, as nested lists that start with a keyword. Values and variables
are written as words, a spread as its operand behind three dots, and every other form as a list of
items. Optional parts that are absent leave no trace.
-/

namespace SyntaxTree

variable {α : Type}

/-- The name of a variable, with an exclamation mark when it can be assigned again. -/
def Variable.canonical (reference : Variable) : List Char :=
  reference.name.toList ++ if reference.isMutable then ['!'] else []

namespace SwitchCase

/-- Keyword, operator, comparand and body, then three dots if the case falls through. -/
def items (arm : SwitchCase α) : List (Item α) :=
  [.word "case", .word arm.operator, .ofOption arm.comparand, .tree arm.body,
    if arm.next.isSome then .word "..." else .absent]

end SwitchCase

namespace Form

/-- The items of a form that is written as a list; values, variables and spreads have none. -/
def items : Form α → List (Item α)
  | .value _ | .var _ | .spread _ => []
  | .assign ⟨target, source, operator⟩ =>
      [.word (operator.getD "" ++ "="), .tree target, .tree source]
  | .tuple elements => .word "," :: elements.map .tree
  | .call ⟨function, arguments⟩ => .word "call" :: .tree function :: arguments.map .tree
  | .index ⟨container, keys⟩ => [.word ".", .tree container, .bracket (keys.map .tree)]
  | .loop ⟨body, otherwise⟩ => [.word "loop", .tree body, .clause "else" otherwise]
  | .cond ⟨condition, consequent, otherwise⟩ =>
      [.word "if", .ofOption condition, .clause "then" consequent, .clause "else" otherwise]
  | .branch ⟨kind, level⟩ => [.word kind.name, .int level]
  | .op ⟨tag, operands⟩ => .word tag :: operands.map .tree
  | .imports name => [.word "import", .word name]
  | .proto ⟨name, parent, publics, privates, statics⟩ =>
      [.word "proto", (name.map (fun name => .word (":" ++ name))).getD .absent,
        .clause "is" parent, .listClause "public" publics, .listClause "private" privates,
        .listClause "static" statics]
  | .returns inner => [.word "return", .tree inner]
  | .switch ⟨scrutinee, cases, fallback, consequent, otherwise⟩ =>
      .word "switch" :: .tree scrutinee :: (cases.map (fun arm => .group arm.items) ++
        [.clause "default" fallback, .clause "then" consequent, .clause "else" otherwise])
  | .block ⟨elements, declared⟩ | .prog ⟨elements, declared⟩ =>
      .word "block" :: declarations declared :: elements.map .tree
  | .func ⟨name, parameters, body⟩ =>
      [.word "function", (name.map .word).getD .absent, .bracket (parameters.map .tree),
        .tree body]
  | .format parts => .word "format" :: parts.map .tree
  | .object pairs =>
      .word "object" ::
        pairs.map (fun pair => .group [.word "pair", .tree pair.1, .tree pair.2])
  | .forEach ⟨target, source, body, consequent, otherwise⟩ =>
      [.word "for", .clause "var" (some target), .clause "in" (some source),
        .clause "body" (some body), .clause "then" consequent, .clause "else" otherwise]
where
  declarations : List Variable → Item α
    | [] => .absent
    | declared =>
        .group (.word "var" :: declared.map (fun reference => .atom reference.canonical))

/-- The canonical form of a form, given how its children are written. -/
def canonical (write : α → Except UnprintableLiteral (List Char)) :
    Form α → Except UnprintableLiteral (List Char)
  | .value literal => .ok literal.canonical
  | .var reference => .ok reference.canonical
  | .spread inner => do
      let text ← write inner
      return '.' :: '.' :: '.' :: text
  | form => Item.list write form.items

end Form

/-- The canonical form of a tree. -/
def Node.canonical : Node → Except UnprintableLiteral (List Char) :=
  Node.fold (fun _ texts => texts.canonical id)

/-- The canonical form of a case, as it stands within its switch. -/
def SwitchCase.canonical (arm : SwitchCase Node) : Except UnprintableLiteral (List Char) :=
  Item.list Node.canonical arm.items

end SyntaxTree
