import SyntaxTree.NodeConstruction

/-!
# Assembling nodes piece by piece

A parser that reads a list does not know its node before the end. An assembly collects the parts
of a tuple or of a switch, and finishing it builds the node.
-/

namespace SyntaxTree

structure TupleAssembly where
  token : Option Token := none
  elements : List Node := []

namespace TupleAssembly

def ofList (elements : List Node) : TupleAssembly := ⟨none, elements⟩

def withToken (token : Token) (assembly : TupleAssembly) : TupleAssembly :=
  { assembly with token := some token }

def push (element : Node) (assembly : TupleAssembly) : TupleAssembly :=
  { assembly with elements := assembly.elements ++ [element] }

def extend (elements : List Node) (assembly : TupleAssembly) : TupleAssembly :=
  { assembly with elements := assembly.elements ++ elements }

def length (assembly : TupleAssembly) : Nat := assembly.elements.length

def isEmpty (assembly : TupleAssembly) : Bool := assembly.elements.isEmpty

def finish (assembly : TupleAssembly) : Node :=
  let tuple := Node.tuple assembly.elements
  match assembly.token with
  | none => tuple
  | some token => tuple.withToken token

end TupleAssembly

/--
The parts of a switch. Cases do not know their positions yet, so each says only whether it falls
through to whatever will follow it.
-/
structure SwitchAssembly where
  token : Option Token := none
  scrutinee : Node
  cases : List (SwitchCase Node × Bool) := []
  fallback : Option Node := none
  consequent : Option Node := none
  otherwise : Option Node := none

namespace SwitchAssembly

def ofScrutinee (scrutinee : Node) : SwitchAssembly where
  scrutinee := scrutinee

def withToken (token : Token) (assembly : SwitchAssembly) : SwitchAssembly :=
  { assembly with token := some token }

/-- Adds a case; a link that it has already is forgotten. -/
def push (arm : SwitchCase Node) (fallsThrough : Bool) (assembly : SwitchAssembly) :
    SwitchAssembly :=
  { assembly with cases := assembly.cases ++ [({ arm with next := none }, fallsThrough)] }

/-- Adds a case that ends the switch after its body. -/
def endingCase (operator : String) (comparand : Option Node) (body : Node) :
    SwitchAssembly → SwitchAssembly :=
  push (.ending operator comparand body) false

/-- Adds a case that goes on with the next case, or with the default body. -/
def fallingCase (operator : String) (comparand : Option Node) (body : Node) :
    SwitchAssembly → SwitchAssembly :=
  push (.ending operator comparand body) true

def withFallback (body : Node) (assembly : SwitchAssembly) : SwitchAssembly :=
  { assembly with fallback := some body }

def withConsequent (body : Node) (assembly : SwitchAssembly) : SwitchAssembly :=
  { assembly with consequent := some body }

def withOtherwise (body : Node) (assembly : SwitchAssembly) : SwitchAssembly :=
  { assembly with otherwise := some body }

/-- The cases from a position on, those that fall through linked to the position after theirs. -/
def linked (position : Nat) : List (SwitchCase Node × Bool) → List (SwitchCase Node)
  | [] => []
  | (arm, fallsThrough) :: rest =>
      let arm := if fallsThrough then { arm with next := some (position + 1).toUInt64 } else arm
      arm :: linked (position + 1) rest

/-- The switch, unless its last case falls through and there is no default body. -/
def finish (assembly : SwitchAssembly) : Except Malformation Node := do
  let switch ← Node.ofForm (.switch
    { scrutinee := assembly.scrutinee
      cases := linked 0 assembly.cases
      fallback := assembly.fallback
      consequent := assembly.consequent
      otherwise := assembly.otherwise })
  match assembly.token with
  | none => pure switch
  | some token => pure (switch.withToken token)

end SwitchAssembly

end SyntaxTree
