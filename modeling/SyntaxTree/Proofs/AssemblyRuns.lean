import SyntaxTree.Assembly

/-!
# Runs of assemblies

What a parser does to an assembly is a list of steps. A run performs them one after another, and
all nodes that a run leaves in the assembly were there at its start or came with one of its steps.
-/

namespace SyntaxTree

inductive TupleStep where
  | withToken (token : Token)
  | push (element : Node)
  | extend (elements : List Node)

namespace TupleStep

def apply : TupleStep → TupleAssembly → TupleAssembly
  | .withToken token => TupleAssembly.withToken token
  | .push element => TupleAssembly.push element
  | .extend elements => TupleAssembly.extend elements

/-- The elements that a step adds. -/
def nodes : TupleStep → List Node
  | .withToken _ => []
  | .push element => [element]
  | .extend elements => elements

end TupleStep

namespace TupleAssembly

def run (assembly : TupleAssembly) (steps : List TupleStep) : TupleAssembly :=
  steps.foldl (fun assembly step => step.apply assembly) assembly

theorem elements_apply (assembly : TupleAssembly) (step : TupleStep) :
    (step.apply assembly).elements = assembly.elements ++ step.nodes := by
  cases step <;> simp [TupleStep.apply, TupleStep.nodes, withToken, push, extend]

theorem elements_run (assembly : TupleAssembly) (steps : List TupleStep) :
    (assembly.run steps).elements = assembly.elements ++ steps.flatMap TupleStep.nodes := by
  induction steps generalizing assembly with
  | nil => simp [run]
  | cons step rest ih =>
      have next : (assembly.run (step :: rest)) = (step.apply assembly).run rest := rfl
      rw [next, ih, elements_apply, List.flatMap_cons, List.append_assoc]

end TupleAssembly

inductive SwitchStep where
  | withToken (token : Token)
  | push (arm : SwitchCase Node) (fallsThrough : Bool)
  | endingCase (operator : String) (comparand : Option Node) (body : Node)
  | fallingCase (operator : String) (comparand : Option Node) (body : Node)
  | withFallback (body : Node)
  | withConsequent (body : Node)
  | withOtherwise (body : Node)

namespace SwitchStep

def apply : SwitchStep → SwitchAssembly → SwitchAssembly
  | .withToken token => SwitchAssembly.withToken token
  | .push arm fallsThrough => SwitchAssembly.push arm fallsThrough
  | .endingCase operator comparand body => SwitchAssembly.endingCase operator comparand body
  | .fallingCase operator comparand body => SwitchAssembly.fallingCase operator comparand body
  | .withFallback body => SwitchAssembly.withFallback body
  | .withConsequent body => SwitchAssembly.withConsequent body
  | .withOtherwise body => SwitchAssembly.withOtherwise body

/-- The nodes that a step brings along. -/
def nodes : SwitchStep → List Node
  | .withToken _ => []
  | .push arm _ => arm.children
  | .endingCase _ comparand body | .fallingCase _ comparand body => comparand.toList ++ [body]
  | .withFallback body | .withConsequent body | .withOtherwise body => [body]

end SwitchStep

namespace SwitchAssembly

def run (assembly : SwitchAssembly) (steps : List SwitchStep) : SwitchAssembly :=
  steps.foldl (fun assembly step => step.apply assembly) assembly

/-- The nodes that the assembly holds. -/
def nodes (assembly : SwitchAssembly) : List Node :=
  assembly.scrutinee :: (assembly.cases.flatMap (fun entry => entry.1.children) ++
    assembly.fallback.toList ++ assembly.consequent.toList ++ assembly.otherwise.toList)

/-- A step leaves no node in the assembly but those that were there and those it brings along. -/
theorem mem_nodes_apply {assembly : SwitchAssembly} {step : SwitchStep} {node : Node}
    (member : node ∈ (step.apply assembly).nodes) : node ∈ assembly.nodes ∨ node ∈ step.nodes := by
  cases step <;>
    simp only [SwitchStep.apply, withToken, push, endingCase, fallingCase, withFallback,
      withConsequent, withOtherwise, nodes, SwitchStep.nodes, SwitchCase.ending,
      SwitchCase.children, List.mem_cons, List.mem_append, List.mem_flatMap, List.flatMap_append,
      List.flatMap_cons, List.flatMap_nil, List.not_mem_nil, Option.toList_some] at member ⊢ <;>
    grind

theorem mem_nodes_run {assembly : SwitchAssembly} {steps : List SwitchStep} {node : Node}
    (member : node ∈ (assembly.run steps).nodes) :
    node ∈ assembly.nodes ∨ ∃ step ∈ steps, node ∈ step.nodes := by
  induction steps generalizing assembly with
  | nil => exact .inl member
  | cons step rest ih =>
      have afterStep : node ∈ ((step.apply assembly).run rest).nodes := member
      rcases ih afterStep with held | ⟨later, inRest, brought⟩
      · rcases mem_nodes_apply held with before | now
        · exact .inl before
        · exact .inr ⟨step, List.mem_cons_self, now⟩
      · exact .inr ⟨later, List.mem_cons_of_mem step inRest, brought⟩

/-- Linking the cases leaves their children as they are. -/
theorem children_linked (position : Nat) (entries : List (SwitchCase Node × Bool)) :
    (linked position entries).flatMap SwitchCase.children =
      entries.flatMap (fun entry => entry.1.children) := by
  induction entries generalizing position with
  | nil => rfl
  | cons entry rest ih =>
      obtain ⟨arm, fallsThrough⟩ := entry
      cases fallsThrough <;>
        simp only [linked, List.flatMap_cons, ih, SwitchCase.children] <;> rfl

/-- The form that finishing the assembly builds a node of. -/
def form (assembly : SwitchAssembly) : Form Node :=
  .switch ⟨assembly.scrutinee, linked 0 assembly.cases, assembly.fallback, assembly.consequent,
    assembly.otherwise⟩

theorem children_form (assembly : SwitchAssembly) : assembly.form.children = assembly.nodes := by
  simp only [form, Form.children, children_linked, nodes]

end SwitchAssembly

end SyntaxTree
