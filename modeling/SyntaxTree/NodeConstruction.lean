import SyntaxTree.Node

/-!
# Building nodes

A node is built from a form: optional clauses that hold the sentinel are dropped, the form is
checked, and the flags are computed. Forms of a kind without a check are built without one. The
named constructors below say what each kind needs.
-/

namespace SyntaxTree

/-- The branch kind of the given name; another name makes the branch malformed. -/
def BranchKind.ofName (name : String) : Except Malformation BranchKind :=
  match ofName? name with
  | some kind => .ok kind
  | none => .error (.unknownBranchKind name)

namespace Node

/-- A node without a token, its flags computed from those of the children. -/
def ofCheckedForm (form : Form Node) : Node :=
  .mk none (form.isLValue Node.isLValue) (form.isRValue Node.isRValue) form

/-- A node of a form whose kind has no check. -/
def ofFreeForm (form : Form Node) : Node :=
  ofCheckedForm (form.dropSentinels Node.isSentinel)

/-- A node of any form, or what is wrong with the form. -/
def ofForm (form : Form Node) : Except Malformation Node :=
  let form := form.dropSentinels Node.isSentinel
  match form.fault? with
  | none => .ok (ofCheckedForm form)
  | some cause => .error cause

/-- The node with the token it came from. A program is no single token's node and keeps none. -/
def withToken (token : Token) (node : Node) : Node :=
  if node.kind = .prog then
    node
  else
    .mk (some token) node.isLValue node.isRValue node.form

def value (literal : Literal) : Node := ofFreeForm (.value literal)

def sentinel : Node := value .sentinel

def var (name : String) (isMutable : Bool) : Except Malformation Node :=
  ofForm (.var ⟨name, isMutable⟩)

/-- A variable named by the token's text. -/
def varOfToken (token : Token) (isMutable : Bool) : Except Malformation Node :=
  match token.value.text? with
  | none => .error (.variableNameType token.value)
  | some name => (var name isMutable).map (withToken token)

def spread (inner : Node) : Node := ofFreeForm (.spread inner)

def assign (target source : Node) : Node := ofFreeForm (.assign ⟨target, source, none⟩)

/-- An assignment that first applies the operator to the target's value. -/
def compoundAssign (target source : Node) (operator : String) : Node :=
  ofFreeForm (.assign ⟨target, source, some operator⟩)

def tuple (elements : List Node) : Node := ofFreeForm (.tuple elements)

def call (function : Node) (arguments : List Node) : Node :=
  ofFreeForm (.call ⟨function, arguments⟩)

def index (container : Node) (keys : List Node) : Node := ofFreeForm (.index ⟨container, keys⟩)

def loop (body : Node) (otherwise : Option Node) : Node := ofFreeForm (.loop ⟨body, otherwise⟩)

def cond (condition consequent otherwise : Option Node) : Node :=
  ofFreeForm (.cond ⟨condition, consequent, otherwise⟩)

/-- A branch of a named kind, whose level must be an integer. The name is looked up first. -/
def branch (name : String) (level : Literal) : Except Malformation Node :=
  match BranchKind.ofName name with
  | .error cause => .error cause
  | .ok kind =>
      match level.int? with
      | none => .error (.levelType level)
      | some level => ofForm (.branch ⟨kind, level⟩)

/-- The operands of an operation, counted from a position, or the first one that is missing. -/
def operands (tag : String) (position : Nat) :
    List (Option Node) → Except Malformation (List Node)
  | [] => .ok []
  | none :: _ => .error (.missingOperand position tag)
  | some operand :: rest => (operands tag (position + 1) rest).map (operand :: ·)

/--
An operation tagged by the token's text. A parser passes none for an operand that it could not
build; the whole operation is then refused.
-/
def op (token : Token) (arguments : List (Option Node)) : Except Malformation Node :=
  match token.value.text? with
  | none => .error (.operatorType token.value)
  | some tag =>
      match operands tag 0 arguments with
      | .error error => .error error
      | .ok operands => (ofForm (.op ⟨tag, operands⟩)).map (withToken token)

def unary (token : Token) (operand : Node) : Except Malformation Node := op token [some operand]

def binary (token : Token) (left right : Node) : Except Malformation Node :=
  op token [some left, some right]

def imports (name : String) : Except Malformation Node := ofForm (.imports name)

def proto (prototype : Prototype Node) : Node := ofFreeForm (.proto prototype)

def returns (inner : Node) : Node := ofFreeForm (.returns inner)

def block (elements : List Node) (declared : List Variable) : Node :=
  ofFreeForm (.block ⟨elements, declared⟩)

/-- The top-level unit. -/
def prog (elements : List Node) (declared : List Variable) : Node :=
  ofFreeForm (.prog ⟨elements, declared⟩)

def func (name : Option String) (parameters : List Node) (body : Node) : Node :=
  ofFreeForm (.func ⟨name, parameters, body⟩)

def format (parts : List Node) : Node := ofFreeForm (.format parts)

def object (pairs : List (Node × Node)) : Node := ofFreeForm (.object pairs)

def forEach (target source body : Node) (consequent otherwise : Option Node) : Node :=
  ofFreeForm (.forEach ⟨target, source, body, consequent, otherwise⟩)

end Node

/-- A case that ends the switch after its body, with no token. -/
def SwitchCase.ending {α : Type} (operator : String) (comparand : Option α) (body : α) :
    SwitchCase α :=
  ⟨none, operator, comparand, body, none⟩

end SyntaxTree
