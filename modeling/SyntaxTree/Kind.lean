/-!
# Node kinds

The closed set of kinds a node can have, and the word that names each.
-/

namespace SyntaxTree

inductive Kind where
  | value
  | var
  | spread
  | assign
  | tuple
  | call
  | index
  | loop
  | cond
  | branch
  | op
  | imports
  | proto
  | returns
  | switch
  | block
  | prog
  | func
  | format
  | object
  | forEach
deriving DecidableEq

namespace Kind

def name : Kind → String
  | .value => "value"
  | .var => "var"
  | .spread => "spread"
  | .assign => "assign"
  | .tuple => "tuple"
  | .call => "call"
  | .index => "index"
  | .loop => "loop"
  | .cond => "if"
  | .branch => "branch"
  | .op => "op"
  | .imports => "import"
  | .proto => "proto"
  | .returns => "return"
  | .switch => "switch"
  | .block => "block"
  | .prog => "prog"
  | .func => "func"
  | .format => "format"
  | .object => "object"
  | .forEach => "for"

/-- Every kind, in the order in which messages list them. -/
def all : List Kind :=
  [.value, .var, .spread, .assign, .tuple, .call, .index, .loop, .cond, .branch, .op, .imports,
    .proto, .returns, .switch, .block, .prog, .func, .format, .object, .forEach]

def ofName? (name : String) : Option Kind := all.find? (fun kind => kind.name == name)

theorem ofName?_name (kind : Kind) : ofName? kind.name = some kind := by
  cases kind <;> rfl

end Kind

/-- Where control goes from a branch: out of its block, to the next round, or to the same one. -/
inductive BranchKind where
  | leave
  | proceed
  | redo
deriving DecidableEq

namespace BranchKind

def name : BranchKind → String
  | .leave => "break"
  | .proceed => "continue"
  | .redo => "redo"

def all : List BranchKind := [.leave, .proceed, .redo]

def ofName? (name : String) : Option BranchKind := all.find? (fun kind => kind.name == name)

theorem ofName?_name (kind : BranchKind) : ofName? kind.name = some kind := by
  cases kind <;> rfl

end BranchKind

end SyntaxTree
