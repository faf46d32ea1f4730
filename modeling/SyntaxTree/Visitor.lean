import SyntaxTree.Node

/-!
# Visitors

A visitor says what to do at the kinds of nodes that it handles. Visiting a tree asks it about
the root, and the answer may run the visits of the children where it likes. A kind without a
handler is an error of the visit, except that programs are blocks to a visitor that does not care
about the difference.
-/

namespace SyntaxTree

/-- The kind of a node that a visitor has no handler for. -/
structure UnsupportedKind where
  kind : Kind
deriving DecidableEq

def UnsupportedKind.message (error : UnsupportedKind) : String :=
  let name := error.kind.name
  s!"visitor does not handle {name} nodes"

/-- What is done at a node, given the visits of its children in their places. -/
abbrev Handler (m : Type → Type) (β : Type) := Node → Form (m β) → m β

/-- The handlers of a visitor, by kind. -/
structure Visitor (m : Type → Type) (β : Type) where
  handler? : Kind → Option (Handler m β)

namespace Visitor

variable {m : Type → Type} {β : Type}

/-- The kind whose handler is asked about a node of the given kind. -/
def target (visitor : Visitor m β) (kind : Kind) : Kind :=
  if kind = .prog && (visitor.handler? .prog).isNone then .block else kind

/-- Visits a tree. -/
def accept [MonadExceptOf UnsupportedKind m] (visitor : Visitor m β) : Node → m β :=
  Node.fold (fun node visits =>
    match visitor.handler? (visitor.target node.kind) with
    | some handler => handler node visits
    | none => throw (UnsupportedKind.mk (visitor.target node.kind)))

/-- A trace of handler calls, kept when the visit fails. -/
abbrev Traced := ExceptT UnsupportedKind (StateM (List (Kind × Kind)))

/--
The visitor that handles the given kinds alike: it notes the kind of the handler and the kind of
the node, and then visits the children in order.
-/
def tracing (handled : List Kind) : Visitor Traced Unit where
  handler? kind :=
    if handled.contains kind then
      some (fun node visits => do
        modify (· ++ [(kind, node.kind)])
        visits.children.forM id)
    else
      none

/-- The calls made by the tracing visitor, and how the visit ended. -/
def trace (handled : List Kind) (node : Node) :
    List (Kind × Kind) × Except UnsupportedKind Unit :=
  let (result, calls) := ((tracing handled).accept node).run.run []
  (calls, result)

end Visitor

end SyntaxTree
