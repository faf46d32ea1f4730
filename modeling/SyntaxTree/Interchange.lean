import SyntaxTree.LiteralInterchange
import SyntaxTree.NodeConstruction

/-!
# Trees in JSON

A node is an object with its kind as the name of the only member and the data of its form as the
value. Tokens and flags are not written: flags are computed again when the node is read, and the
form is checked then, as it is when the node is built in any other way.
-/

namespace SyntaxTree

open Json (DataError ReadError Reader Codec Field Record)

namespace Variable

def record : Record Variable where
  name := "Var"
  fields := [.required "name" .text, .defaulting "mutable" .bool true]
  assemble := fun (values : String × Bool × Unit) => ⟨values.1, values.2.1⟩
  parts reference := (reference.name, reference.isMutable, ())

end Variable

namespace BranchKind

/-- A branch kind is a bare name, or an object of the name and null. -/
def codec : Codec BranchKind where
  read := Reader.variant (all.map name) ofName? .ok (fun kind => do
    Reader.unit
    return kind)
  write kind := .text kind.name

end BranchKind

section Records

variable {α : Type} (child : Codec α)

def Assignment.record : Record (Assignment α) where
  name := "Assign"
  fields := [.required "target" child, .required "value" child, .optional "op" .text]
  assemble := fun (values : α × α × Option String × Unit) =>
    ⟨values.1, values.2.1, values.2.2.1⟩
  parts assignment := (assignment.target, assignment.value, assignment.operator, ())

def Call.record : Record (Call α) where
  name := "Call"
  fields := [.required "func" child, .list "args" child]
  assemble := fun (values : α × List α × Unit) => ⟨values.1, values.2.1⟩
  parts call := (call.function, call.arguments, ())

def Indexing.record : Record (Indexing α) where
  name := "Index"
  fields := [.required "obj" child, .list "keys" child]
  assemble := fun (values : α × List α × Unit) => ⟨values.1, values.2.1⟩
  parts indexing := (indexing.object, indexing.keys, ())

def Loop.record : Record (Loop α) where
  name := "Loop"
  fields := [.required "body" child, .optional "else" child]
  assemble := fun (values : α × Option α × Unit) => ⟨values.1, values.2.1⟩
  parts loop := (loop.body, loop.otherwise, ())

def Conditional.record : Record (Conditional α) where
  name := "If"
  fields := [.optional "cond" child, .optional "then" child, .optional "else" child]
  assemble := fun (values : Option α × Option α × Option α × Unit) =>
    ⟨values.1, values.2.1, values.2.2.1⟩
  parts conditional :=
    (conditional.condition, conditional.consequent, conditional.otherwise, ())

def Branch.record : Record Branch where
  name := "Branch"
  fields := [.required "kind" BranchKind.codec, .defaulting "level" .int64 0]
  assemble := fun (values : BranchKind × Int64 × Unit) => ⟨values.1, values.2.1⟩
  parts branch := (branch.kind, branch.level, ())

def Operation.record : Record (Operation α) where
  name := "Op"
  fields := [.required "op" .text, .list "args" child]
  assemble := fun (values : String × List α × Unit) => ⟨values.1, values.2.1⟩
  parts operation := (operation.tag, operation.operands, ())

def Prototype.record : Record (Prototype α) where
  name := "Proto"
  fields := [.optional "name" .text, .optional "parent" child, .nonemptyList "public" child,
    .nonemptyList "private" child, .nonemptyList "static" child]
  assemble := fun (values : Option String × Option α × List α × List α × List α × Unit) =>
    ⟨values.1, values.2.1, values.2.2.1, values.2.2.2.1, values.2.2.2.2.1⟩
  parts prototype :=
    (prototype.name, prototype.parent, prototype.publics, prototype.privates,
      prototype.statics, ())

/-- Cases are read without a token. -/
def SwitchCase.record : Record (SwitchCase α) where
  name := "Case"
  fields := [.required "op" .text, .optional "value" child, .required "body" child,
    .optional "next" .index]
  assemble := fun (values : String × Option α × α × Option UInt64 × Unit) =>
    ⟨none, values.1, values.2.1, values.2.2.1, values.2.2.2.1⟩
  parts arm := (arm.operator, arm.comparand, arm.body, arm.next, ())

def Switch.record : Record (Switch α) where
  name := "Switch"
  fields := [.required "scrutinee" child, .list "cases" (SwitchCase.record child).codec,
    .optional "default" child, .optional "then" child, .optional "else" child]
  assemble := fun (values : α × List (SwitchCase α) × Option α × Option α × Option α × Unit) =>
    ⟨values.1, values.2.1, values.2.2.1, values.2.2.2.1, values.2.2.2.2.1⟩
  parts switch :=
    (switch.scrutinee, switch.cases, switch.fallback, switch.consequent, switch.otherwise, ())

def Block.record : Record (Block α) where
  name := "Block"
  fields := [.list "elems" child, .nonemptyList "vars" Variable.record.codec]
  assemble := fun (values : List α × List Variable × Unit) => ⟨values.1, values.2.1⟩
  parts block := (block.elements, block.declared, ())

def FunctionLiteral.record : Record (FunctionLiteral α) where
  name := "Func"
  fields := [.optional "name" .text, .list "params" child, .required "body" child]
  assemble := fun (values : Option String × List α × α × Unit) =>
    ⟨values.1, values.2.1, values.2.2.1⟩
  parts function := (function.name, function.parameters, function.body, ())

def Iteration.record : Record (Iteration α) where
  name := "For"
  fields := [.required "target" child, .required "iter" child, .required "body" child,
    .optional "then" child, .optional "else" child]
  assemble := fun (values : α × α × α × Option α × Option α × Unit) =>
    ⟨values.1, values.2.1, values.2.2.1, values.2.2.2.1, values.2.2.2.2.1⟩
  parts iteration :=
    (iteration.target, iteration.source, iteration.body, iteration.consequent,
      iteration.otherwise, ())

namespace Form

/-- Reads the data of a form of the given kind. -/
def read : Kind → Reader (Form α)
  | .value => Form.value <$> Literal.read
  | .var => Form.var <$> Variable.record.read
  | .spread => Form.spread <$> child.read
  | .assign => Form.assign <$> (Assignment.record child).read
  | .tuple => Form.tuple <$> (Codec.list child).read
  | .call => Form.call <$> (Call.record child).read
  | .index => Form.index <$> (Indexing.record child).read
  | .loop => Form.loop <$> (Loop.record child).read
  | .cond => Form.cond <$> (Conditional.record child).read
  | .branch => Form.branch <$> Branch.record.read
  | .op => Form.op <$> (Operation.record child).read
  | .imports => Form.imports <$> Reader.text
  | .proto => Form.proto <$> (Prototype.record child).read
  | .returns => Form.returns <$> child.read
  | .switch => Form.switch <$> (Switch.record child).read
  | .block => Form.block <$> (Block.record child).read
  | .prog => Form.prog <$> (Block.record child).read
  | .func => Form.func <$> (FunctionLiteral.record child).read
  | .format => Form.format <$> (Codec.list child).read
  | .object => Form.object <$> (Codec.list (Codec.pair child child)).read
  | .forEach => Form.forEach <$> (Iteration.record child).read

/-- The data of a form as a JSON value. -/
def write : Form α → Json
  | .value literal => literal.toJson
  | .var reference => Variable.record.write reference
  | .spread inner => child.write inner
  | .assign assignment => (Assignment.record child).write assignment
  | .tuple elements => (Codec.list child).write elements
  | .call application => (Call.record child).write application
  | .index indexing => (Indexing.record child).write indexing
  | .loop repetition => (Loop.record child).write repetition
  | .cond conditional => (Conditional.record child).write conditional
  | .branch jump => Branch.record.write jump
  | .op operation => (Operation.record child).write operation
  | .imports name => .text name
  | .proto prototype => (Prototype.record child).write prototype
  | .returns inner => child.write inner
  | .switch choice => (Switch.record child).write choice
  | .block sequence => (Block.record child).write sequence
  | .prog sequence => (Block.record child).write sequence
  | .func function => (FunctionLiteral.record child).write function
  | .format parts => (Codec.list child).write parts
  | .object pairs => (Codec.list (Codec.pair child child)).write pairs
  | .forEach iteration => (Iteration.record child).write iteration

/-- A form as JSON, its kind naming its data. -/
def toJson (form : Form α) : Json := .object [(form.kind.name, form.write child)]

end Form

end Records

namespace Node

/-- A tree as JSON. -/
def toJson : Node → Json := fold (fun _ members => members.toJson .json)

/-- Reads a tree of at most so many nodes from the root down. -/
def readUpTo : (height : Nat) → Reader Node
  | 0 => Reader.fail (.fault .invalid)
  | height + 1 => do
      let form ← Reader.variant (Kind.all.map Kind.name) Kind.ofName?
        (fun _ => .error (.invalidType .bareName "newtype variant"))
        (Form.read ⟨readUpTo height, toJson⟩)
      match ofForm form with
      | .ok node => pure node
      | .error cause => Reader.failData (.malformed cause)

/-- Every node opens an object, so there are no more of them on a path than there are levels. -/
def read : Reader Node := fun levels => readUpTo (levels + 1) levels

def codec : Codec Node := ⟨read, toJson⟩

end Node

/-- How many arrays and objects may be open at once in a text that is read. -/
def nestingLimit : Nat := 127

/-- Reads a whole text with a reader, within the limit of nesting. -/
def readText {α : Type} (reader : Reader α) (text : String) : Except ReadError α :=
  reader.run nestingLimit text.toList

namespace Node

def ofJsonText (text : String) : Except ReadError Node := readText read text

end Node

end SyntaxTree
