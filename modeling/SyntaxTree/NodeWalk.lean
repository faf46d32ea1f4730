import SyntaxTree.Node

/-!
# Walking a tree

The walk visits every node of a tree once, a parent before its children and the children in the
order in which they are written.
-/

namespace SyntaxTree.Node

/-- The nodes of a tree in the order of the walk. -/
def walk : Node → List Node := fold (fun node walks => node :: walks.children.flatten)

theorem walk_eq (node : Node) : node.walk = node :: node.children.flatMap walk := by
  rw [walk, fold_eq, Form.children_map, List.flatMap_def]
  rfl

/-- The kind of a node and the three answers on it, as one line shows them. -/
def summary (node : Node) : String :=
  let lvalue := if node.isLValue then "L" else "-"
  let rvalue := if node.isRValue then "R" else "-"
  let statement := if node.isStatement then "S" else "-"
  let kind := node.kind.name
  s!"{kind} {lvalue}{rvalue}{statement}"

end SyntaxTree.Node
