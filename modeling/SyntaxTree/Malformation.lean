import SyntaxTree.Kind
import SyntaxTree.Literal

/-!
# Malformed nodes

The ways in which the data of a node can be wrong, each with what its message shows.
-/

namespace SyntaxTree

inductive Malformation where
  | emptyVariableName
  | emptyModuleName
  | emptyOperatorTag
  | negativeLevel (level : Int64)
  /-- A case links to another position than the one after it. -/
  | wrongLink (position : Nat) (next : UInt64)
  /-- The last case links onward and no default body is there. -/
  | danglingLink (position : Nat)
  | variableNameType (found : Literal)
  | levelType (found : Literal)
  | operatorType (found : Literal)
  | missingOperand (position : Nat) (operator : String)
  | unknownBranchKind (name : String)
deriving DecidableEq

namespace Malformation

/-- The kind of the node that could not be built. -/
def kind : Malformation → Kind
  | .emptyVariableName | .variableNameType _ => .var
  | .emptyModuleName => .imports
  | .emptyOperatorTag | .operatorType _ | .missingOperand _ _ => .op
  | .negativeLevel _ | .levelType _ | .unknownBranchKind _ => .branch
  | .wrongLink _ _ | .danglingLink _ => .switch

def reason : Malformation → String
  | .emptyVariableName => "name is empty"
  | .emptyModuleName => "module name is empty"
  | .emptyOperatorTag => "operator tag is empty"
  | .negativeLevel level =>
      "level must be non-negative, got " ++ String.ofList (Text.integer level.toInt)
  | .wrongLink position next =>
      let successor := position + 1
      let found := next.toNat
      s!"case {position} must fall through to case {successor}, not {found}"
  | .danglingLink position =>
      s!"case {position} falls through but no case or default follows"
  | .variableNameType found => "name must be a string, got " ++ found.typeName
  | .levelType found => "level must be an int, got " ++ found.typeName
  | .operatorType found => "operator must be a string, got " ++ found.typeName
  | .missingOperand position operator =>
      let shown := String.ofList (Text.quoted operator)
      s!"operand {position} of {shown} is not a node"
  | .unknownBranchKind name => "unknown branch kind " ++ String.ofList (Text.quoted name)

def message (cause : Malformation) : String :=
  let kind := cause.kind.name
  let reason := cause.reason
  s!"malformed {kind} node: {reason}"

end Malformation

end SyntaxTree
