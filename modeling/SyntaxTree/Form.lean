import SyntaxTree.Malformation
import SyntaxTree.Token

/-!
# Forms

A form is the data of one node over a type of children: the kind, the names and options of its
own, and the children in their places. Everything that concerns a single node, its checks, its
flags, its text, is defined on forms, for any children; trees tie the knot.
-/

namespace SyntaxTree

structure Variable where
  name : String
  isMutable : Bool
deriving DecidableEq

/-- An assignment, compound when it has the operator that stands before the equals sign. -/
structure Assignment (α : Type) where
  target : α
  value : α
  operator : Option String
deriving DecidableEq

structure Call (α : Type) where
  function : α
  arguments : List α
deriving DecidableEq

structure Indexing (α : Type) where
  object : α
  keys : List α
deriving DecidableEq

/-- A loop without a condition, which every looping construct becomes. -/
structure Loop (α : Type) where
  body : α
  otherwise : Option α
deriving DecidableEq

structure Conditional (α : Type) where
  condition : Option α
  consequent : Option α
  otherwise : Option α
deriving DecidableEq

/-- A jump that concerns the enclosing block so many levels up. -/
structure Branch where
  kind : BranchKind
  level : Int64
deriving DecidableEq

structure Operation (α : Type) where
  tag : String
  operands : List α
deriving DecidableEq

structure Prototype (α : Type) where
  name : Option String
  parent : Option α
  publics : List α
  privates : List α
  statics : List α
deriving DecidableEq

/--
One arm of a switch. A link is a position in the list of cases; the position after the last case
means the default body.
-/
structure SwitchCase (α : Type) where
  token : Option Token
  operator : String
  comparand : Option α
  body : α
  next : Option UInt64
deriving DecidableEq

structure Switch (α : Type) where
  scrutinee : α
  cases : List (SwitchCase α)
  fallback : Option α
  consequent : Option α
  otherwise : Option α
deriving DecidableEq

/-- A sequence that evaluates to its last element, with the variables it declares. -/
structure Block (α : Type) where
  elements : List α
  declared : List Variable
deriving DecidableEq

structure FunctionLiteral (α : Type) where
  name : Option String
  parameters : List α
  body : α
deriving DecidableEq

structure Iteration (α : Type) where
  target : α
  source : α
  body : α
  consequent : Option α
  otherwise : Option α
deriving DecidableEq

inductive Form (α : Type) where
  | value (literal : Literal)
  | var (reference : Variable)
  | spread (inner : α)
  | assign (assignment : Assignment α)
  | tuple (elements : List α)
  | call (call : Call α)
  | index (indexing : Indexing α)
  | loop (loop : Loop α)
  | cond (conditional : Conditional α)
  | branch (branch : Branch)
  | op (operation : Operation α)
  | imports (name : String)
  | proto (prototype : Prototype α)
  | returns (inner : α)
  | switch (switch : Switch α)
  | block (block : Block α)
  | prog (block : Block α)
  | func (function : FunctionLiteral α)
  /-- A text put together from literal pieces and embedded expressions. -/
  | format (parts : List α)
  | object (pairs : List (α × α))
  | forEach (iteration : Iteration α)
deriving DecidableEq

variable {α β : Type}

namespace SwitchCase

def map (f : α → β) (arm : SwitchCase α) : SwitchCase β where
  token := arm.token
  operator := arm.operator
  comparand := arm.comparand.map f
  body := f arm.body
  next := arm.next

def children (arm : SwitchCase α) : List α := arm.comparand.toList ++ [arm.body]

end SwitchCase

namespace Form

def kind : Form α → Kind
  | .value _ => .value
  | .var _ => .var
  | .spread _ => .spread
  | .assign _ => .assign
  | .tuple _ => .tuple
  | .call _ => .call
  | .index _ => .index
  | .loop _ => .loop
  | .cond _ => .cond
  | .branch _ => .branch
  | .op _ => .op
  | .imports _ => .imports
  | .proto _ => .proto
  | .returns _ => .returns
  | .switch _ => .switch
  | .block _ => .block
  | .prog _ => .prog
  | .func _ => .func
  | .format _ => .format
  | .object _ => .object
  | .forEach _ => .forEach

def map (f : α → β) : Form α → Form β
  | .value literal => .value literal
  | .var reference => .var reference
  | .spread inner => .spread (f inner)
  | .assign ⟨target, source, operator⟩ => .assign ⟨f target, f source, operator⟩
  | .tuple elements => .tuple (elements.map f)
  | .call ⟨function, arguments⟩ => .call ⟨f function, arguments.map f⟩
  | .index ⟨container, keys⟩ => .index ⟨f container, keys.map f⟩
  | .loop ⟨body, otherwise⟩ => .loop ⟨f body, otherwise.map f⟩
  | .cond ⟨condition, consequent, otherwise⟩ =>
      .cond ⟨condition.map f, consequent.map f, otherwise.map f⟩
  | .branch jump => .branch jump
  | .op ⟨tag, operands⟩ => .op ⟨tag, operands.map f⟩
  | .imports name => .imports name
  | .proto ⟨name, parent, publics, privates, statics⟩ =>
      .proto ⟨name, parent.map f, publics.map f, privates.map f, statics.map f⟩
  | .returns inner => .returns (f inner)
  | .switch ⟨scrutinee, cases, fallback, consequent, otherwise⟩ =>
      .switch ⟨f scrutinee, cases.map (·.map f), fallback.map f, consequent.map f,
        otherwise.map f⟩
  | .block ⟨elements, declared⟩ => .block ⟨elements.map f, declared⟩
  | .prog ⟨elements, declared⟩ => .prog ⟨elements.map f, declared⟩
  | .func ⟨name, parameters, body⟩ => .func ⟨name, parameters.map f, f body⟩
  | .format parts => .format (parts.map f)
  | .object pairs => .object (pairs.map (fun pair => (f pair.1, f pair.2)))
  | .forEach ⟨target, source, body, consequent, otherwise⟩ =>
      .forEach ⟨f target, f source, f body, consequent.map f, otherwise.map f⟩

/-- The children in the order in which they are written. -/
def children : Form α → List α
  | .value _ | .var _ | .branch _ | .imports _ => []
  | .spread inner | .returns inner => [inner]
  | .assign ⟨target, source, _⟩ => [target, source]
  | .tuple elements | .format elements => elements
  | .call ⟨function, arguments⟩ => function :: arguments
  | .index ⟨container, keys⟩ => container :: keys
  | .loop ⟨body, otherwise⟩ => body :: otherwise.toList
  | .cond ⟨condition, consequent, otherwise⟩ =>
      condition.toList ++ consequent.toList ++ otherwise.toList
  | .op ⟨_, operands⟩ => operands
  | .proto ⟨_, parent, publics, privates, statics⟩ =>
      parent.toList ++ publics ++ privates ++ statics
  | .switch ⟨scrutinee, cases, fallback, consequent, otherwise⟩ =>
      scrutinee :: (cases.flatMap SwitchCase.children ++ fallback.toList ++ consequent.toList ++
        otherwise.toList)
  | .block ⟨elements, _⟩ | .prog ⟨elements, _⟩ => elements
  | .func ⟨_, parameters, body⟩ => parameters ++ [body]
  | .object pairs => pairs.flatMap (fun pair => [pair.1, pair.2])
  | .forEach ⟨target, source, body, consequent, otherwise⟩ =>
      target :: source :: body :: (consequent.toList ++ otherwise.toList)

theorem kind_map (f : α → β) (form : Form α) : (form.map f).kind = form.kind := by
  cases form <;> rfl

theorem children_map (f : α → β) (form : Form α) :
    (form.map f).children = form.children.map f := by
  have toList_map (clause : Option α) : (clause.map f).toList = clause.toList.map f := by
    cases clause <;> rfl
  have cases_map (cases : List (SwitchCase α)) :
      (cases.map (·.map f)).flatMap SwitchCase.children =
        (cases.flatMap SwitchCase.children).map f := by
    induction cases with
    | nil => rfl
    | cons arm rest ih =>
        simp only [List.map_cons, List.flatMap_cons, ih, List.map_append]
        simp [SwitchCase.map, SwitchCase.children, toList_map]
  have pairs_map (pairs : List (α × α)) :
      (pairs.map (fun pair => (f pair.1, f pair.2))).flatMap (fun pair => [pair.1, pair.2]) =
        (pairs.flatMap (fun pair => [pair.1, pair.2])).map f := by
    induction pairs with
    | nil => rfl
    | cons pair rest ih => simp [ih]
  cases form <;> simp [map, children, toList_map, cases_map, pairs_map]

/-- Whether a node of this kind, last in a function's body, is no implicit result. -/
def isStatement : Form α → Bool
  | .assign _ | .loop _ | .cond _ | .branch _ | .returns _ | .forEach _ | .block _ | .prog _ =>
      true
  | _ => false

/--
Whether a form may be assigned to, given which children may. Tuples and spreads pass the question
on; values, texts, objects, operations and blocks may not.
-/
def isLValue (childIsLValue : α → Bool) : Form α → Bool
  | .value _ | .format _ | .object _ | .op _ | .block _ | .prog _ => false
  | .spread inner => childIsLValue inner
  | .tuple elements => elements.all childIsLValue
  | _ => true

/-- Whether a form may be read as a value, given which children may. -/
def isRValue (childIsRValue : α → Bool) : Form α → Bool
  | .spread _ | .block _ | .prog _ => false
  | .tuple elements => elements.all childIsRValue
  | _ => true

/--
The form without the optional clauses that hold a sentinel, which mean the same as no clause.
A condition, a comparand and a parent are no such clauses.
-/
def dropSentinels (isSentinel : α → Bool) : Form α → Form α
  | .loop ⟨body, otherwise⟩ => .loop ⟨body, kept otherwise⟩
  | .cond ⟨condition, consequent, otherwise⟩ =>
      .cond ⟨condition, kept consequent, kept otherwise⟩
  | .switch ⟨scrutinee, cases, fallback, consequent, otherwise⟩ =>
      .switch ⟨scrutinee, cases, kept fallback, kept consequent, kept otherwise⟩
  | .forEach ⟨target, source, body, consequent, otherwise⟩ =>
      .forEach ⟨target, source, body, kept consequent, kept otherwise⟩
  | form => form
where
  kept (clause : Option α) : Option α := clause.filter (fun child => !isSentinel child)

/-- The first case, counted from a position, that does not link to what follows it. -/
def badLink? (hasFallback : Bool) (count : Nat) : Nat → List (SwitchCase α) → Option Malformation
  | _, [] => none
  | position, arm :: rest =>
      match arm.next with
      | none => badLink? hasFallback count (position + 1) rest
      | some next =>
          if next.toNat ≠ position + 1 then
            some (.wrongLink position next)
          else if next.toNat = count && !hasFallback then
            some (.danglingLink position)
          else
            badLink? hasFallback count (position + 1) rest

/--
What is wrong with a form, if anything. Names that the written form shows must not be empty,
since they would vanish from it.
-/
def fault? : Form α → Option Malformation
  | .var reference => if reference.name.isEmpty then some .emptyVariableName else none
  | .imports name => if name.isEmpty then some .emptyModuleName else none
  | .op operation => if operation.tag.isEmpty then some .emptyOperatorTag else none
  | .branch jump => if jump.level < 0 then some (.negativeLevel jump.level) else none
  | .switch choice => badLink? choice.fallback.isSome choice.cases.length 0 choice.cases
  | _ => none

end Form

end SyntaxTree
