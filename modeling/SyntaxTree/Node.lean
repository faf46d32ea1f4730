import SyntaxTree.Form

/-!
# Nodes

A node is a form over nodes, with the token it came from and the two flags that say whether it
may be assigned to and whether it may be read. The flags are those of its form over the flags of
its children; they are stored when the node is made.

Recursion over trees is stated once: `fold` computes a value from the values of the children, and
all that is computed for whole trees is a fold.
-/

namespace SyntaxTree

inductive Node where
  | mk (token : Option Token) (lvalue rvalue : Bool) (form : Form Node)

namespace Node

def token? : Node → Option Token
  | .mk token _ _ _ => token

def isLValue : Node → Bool
  | .mk _ lvalue _ _ => lvalue

def isRValue : Node → Bool
  | .mk _ _ rvalue _ => rvalue

def form : Node → Form Node
  | .mk _ _ _ form => form

def kind (node : Node) : Kind := node.form.kind

def isStatement (node : Node) : Bool := node.form.isStatement

def children (node : Node) : List Node := node.form.children

def isSentinel (node : Node) : Bool :=
  match node.form with
  | .value literal => literal.isSentinel
  | _ => false

section Fold

variable {β : Type} (step : Node → Form β → β)

mutual

/-- The value of a tree, from each node and the values of its children in their places. -/
def fold : Node → β
  | .mk token lvalue rvalue form => step (.mk token lvalue rvalue form) (foldForm form)

def foldForm : Form Node → Form β
  | .value literal => .value literal
  | .var reference => .var reference
  | .spread inner => .spread (fold inner)
  | .assign ⟨target, value, operator⟩ => .assign ⟨fold target, fold value, operator⟩
  | .tuple elements => .tuple (foldList elements)
  | .call ⟨function, arguments⟩ => .call ⟨fold function, foldList arguments⟩
  | .index ⟨object, keys⟩ => .index ⟨fold object, foldList keys⟩
  | .loop ⟨body, otherwise⟩ => .loop ⟨fold body, foldOption otherwise⟩
  | .cond ⟨condition, consequent, otherwise⟩ =>
      .cond ⟨foldOption condition, foldOption consequent, foldOption otherwise⟩
  | .branch jump => .branch jump
  | .op ⟨tag, operands⟩ => .op ⟨tag, foldList operands⟩
  | .imports name => .imports name
  | .proto ⟨name, parent, publics, privates, statics⟩ =>
      .proto ⟨name, foldOption parent, foldList publics, foldList privates, foldList statics⟩
  | .returns inner => .returns (fold inner)
  | .switch ⟨scrutinee, cases, fallback, consequent, otherwise⟩ =>
      .switch ⟨fold scrutinee, foldCases cases, foldOption fallback, foldOption consequent,
        foldOption otherwise⟩
  | .block ⟨elements, declared⟩ => .block ⟨foldList elements, declared⟩
  | .prog ⟨elements, declared⟩ => .prog ⟨foldList elements, declared⟩
  | .func ⟨name, parameters, body⟩ => .func ⟨name, foldList parameters, fold body⟩
  | .format parts => .format (foldList parts)
  | .object pairs => .object (foldPairs pairs)
  | .forEach ⟨target, source, body, consequent, otherwise⟩ =>
      .forEach ⟨fold target, fold source, fold body, foldOption consequent, foldOption otherwise⟩

def foldList : List Node → List β
  | [] => []
  | node :: rest => fold node :: foldList rest

def foldOption : Option Node → Option β
  | none => none
  | some node => some (fold node)

def foldPairs : List (Node × Node) → List (β × β)
  | [] => []
  | (key, value) :: rest => (fold key, fold value) :: foldPairs rest

def foldCases : List (SwitchCase Node) → List (SwitchCase β)
  | [] => []
  | ⟨token, operator, comparand, body, next⟩ :: rest =>
      ⟨token, operator, foldOption comparand, fold body, next⟩ :: foldCases rest

end

theorem foldList_eq_map (nodes : List Node) : foldList step nodes = nodes.map (fold step) := by
  induction nodes with
  | nil => rfl
  | cons node rest ih => simp [foldList, ih]

theorem foldOption_eq_map (node : Option Node) :
    foldOption step node = node.map (fold step) := by
  cases node <;> rfl

theorem foldPairs_eq_map (pairs : List (Node × Node)) :
    foldPairs step pairs = pairs.map (fun pair => (fold step pair.1, fold step pair.2)) := by
  induction pairs with
  | nil => rfl
  | cons pair rest ih => simp [foldPairs, ih]

theorem foldCases_eq_map (cases : List (SwitchCase Node)) :
    foldCases step cases = cases.map (·.map (fold step)) := by
  induction cases with
  | nil => rfl
  | cons arm rest ih => simp [foldCases, SwitchCase.map, foldOption_eq_map, ih]

theorem foldForm_eq_map (form : Form Node) : foldForm step form = form.map (fold step) := by
  cases form <;>
    simp [foldForm, Form.map, foldList_eq_map, foldOption_eq_map, foldPairs_eq_map,
      foldCases_eq_map]

theorem fold_eq (node : Node) : fold step node = step node (node.form.map (fold step)) := by
  cases node with
  | mk token lvalue rvalue form => rw [fold, foldForm_eq_map, Node.form]

end Fold

end Node

end SyntaxTree
