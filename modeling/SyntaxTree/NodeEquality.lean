import SyntaxTree.Node

/-!
# Equality of trees

Two trees are equal when their flags and forms are, with literals compared as literals are.
Where they came from does not count: neither the token of a node nor that of a case is looked at.
-/

namespace SyntaxTree

variable {α β : Type}

/-- Two lists of one length with related elements in every place. -/
def pairwiseSame (same : α → β → Bool) : List α → List β → Bool
  | [], [] => true
  | first :: firsts, second :: seconds => same first second && pairwiseSame same firsts seconds
  | _, _ => false

/-- Two clauses both absent, or both there and related. -/
def clauseSame (same : α → β → Bool) : Option α → Option β → Bool
  | none, none => true
  | some first, some second => same first second
  | _, _ => false

def SwitchCase.sameWith (same : α → β → Bool) (first : SwitchCase α) (second : SwitchCase β) :
    Bool :=
  first.operator == second.operator && clauseSame same first.comparand second.comparand &&
    same first.body second.body && first.next == second.next

/-- Forms of one kind with the same own data and related children in every place. -/
def Form.sameWith (same : α → β → Bool) : Form α → Form β → Bool
  | .value first, .value second => first.same second
  | .var first, .var second => first == second
  | .spread first, .spread second => same first second
  | .assign first, .assign second =>
      same first.target second.target && same first.value second.value &&
        first.operator == second.operator
  | .tuple first, .tuple second => pairwiseSame same first second
  | .call first, .call second =>
      same first.function second.function &&
        pairwiseSame same first.arguments second.arguments
  | .index first, .index second =>
      same first.object second.object && pairwiseSame same first.keys second.keys
  | .loop first, .loop second =>
      same first.body second.body && clauseSame same first.otherwise second.otherwise
  | .cond first, .cond second =>
      clauseSame same first.condition second.condition &&
        clauseSame same first.consequent second.consequent &&
        clauseSame same first.otherwise second.otherwise
  | .branch first, .branch second => first == second
  | .op first, .op second =>
      first.tag == second.tag && pairwiseSame same first.operands second.operands
  | .imports first, .imports second => first == second
  | .proto first, .proto second =>
      first.name == second.name && clauseSame same first.parent second.parent &&
        pairwiseSame same first.publics second.publics &&
        pairwiseSame same first.privates second.privates &&
        pairwiseSame same first.statics second.statics
  | .returns first, .returns second => same first second
  | .switch first, .switch second =>
      same first.scrutinee second.scrutinee &&
        pairwiseSame (SwitchCase.sameWith same) first.cases second.cases &&
        clauseSame same first.fallback second.fallback &&
        clauseSame same first.consequent second.consequent &&
        clauseSame same first.otherwise second.otherwise
  | .block first, .block second =>
      pairwiseSame same first.elements second.elements && first.declared == second.declared
  | .prog first, .prog second =>
      pairwiseSame same first.elements second.elements && first.declared == second.declared
  | .func first, .func second =>
      first.name == second.name && pairwiseSame same first.parameters second.parameters &&
        same first.body second.body
  | .format first, .format second => pairwiseSame same first second
  | .object first, .object second =>
      pairwiseSame (fun one other => same one.1 other.1 && same one.2 other.2) first second
  | .forEach first, .forEach second =>
      same first.target second.target && same first.source second.source &&
        same first.body second.body && clauseSame same first.consequent second.consequent &&
        clauseSame same first.otherwise second.otherwise
  | _, _ => false

namespace Node

/-- Equality of trees, as the question a tree asks of another one. -/
def same : Node → Node → Bool :=
  fold (fun first questions second =>
    first.isLValue == second.isLValue && first.isRValue == second.isRValue &&
      questions.sameWith (fun question child => question child) second.form)

instance : BEq Node := ⟨same⟩

end Node

/-- Equality of cases, which does not look at their tokens either. -/
def SwitchCase.same (first second : SwitchCase Node) : Bool :=
  first.sameWith Node.same second

end SyntaxTree
