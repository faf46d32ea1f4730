import SyntaxTree.Proofs.AssemblyRuns
import SyntaxTree.Proofs.ReadTrees
import SyntaxTree.Proofs.Soundness

/-!
# Constructible nodes

A node is constructible when some sequence of operations makes it: the constructors, the
assemblies, reading, taking a child, giving it a token, and building it from a form put together
at will from constructible nodes. Each of these operations builds a node from a form, gives it a
token or takes a child, so an invariant has to be shown for these three only.
-/

namespace SyntaxTree

namespace Node

inductive Constructible : Node → Prop where
  | value (literal : Literal) : Constructible (value literal)
  | sentinel : Constructible sentinel
  | var {name : String} {isMutable : Bool} {node : Node} (built : var name isMutable = .ok node) :
      Constructible node
  | varOfToken {token : Token} {isMutable : Bool} {node : Node}
      (built : varOfToken token isMutable = .ok node) : Constructible node
  | spread {inner : Node} (made : Constructible inner) : Constructible (spread inner)
  | assign {target source : Node} (target_made : Constructible target)
      (source_made : Constructible source) : Constructible (assign target source)
  | compoundAssign {target source : Node} (operator : String)
      (target_made : Constructible target) (source_made : Constructible source) :
      Constructible (compoundAssign target source operator)
  | tuple {elements : List Node} (made : ∀ element ∈ elements, Constructible element) :
      Constructible (tuple elements)
  | call {function : Node} {arguments : List Node}
      (made : ∀ child ∈ function :: arguments, Constructible child) :
      Constructible (call function arguments)
  | index {container : Node} {keys : List Node}
      (made : ∀ child ∈ container :: keys, Constructible child) :
      Constructible (index container keys)
  | loop {body : Node} {otherwise : Option Node}
      (made : ∀ child ∈ body :: otherwise.toList, Constructible child) :
      Constructible (loop body otherwise)
  | cond {condition consequent otherwise : Option Node}
      (made : ∀ child ∈ condition.toList ++ consequent.toList ++ otherwise.toList,
        Constructible child) :
      Constructible (cond condition consequent otherwise)
  | branch {name : String} {level : Literal} {node : Node} (built : branch name level = .ok node) :
      Constructible node
  | op {token : Token} {arguments : List (Option Node)} {node : Node}
      (arguments_made : ∀ argument, some argument ∈ arguments → Constructible argument)
      (built : op token arguments = .ok node) : Constructible node
  | unary {token : Token} {operand node : Node} (operand_made : Constructible operand)
      (built : unary token operand = .ok node) : Constructible node
  | binary {token : Token} {left right node : Node} (left_made : Constructible left)
      (right_made : Constructible right) (built : binary token left right = .ok node) :
      Constructible node
  | imports {name : String} {node : Node} (built : imports name = .ok node) : Constructible node
  | proto {prototype : Prototype Node}
      (made : ∀ child ∈ (Form.proto prototype).children, Constructible child) :
      Constructible (proto prototype)
  | returns {inner : Node} (made : Constructible inner) : Constructible (returns inner)
  | block {elements : List Node} (declared : List Variable)
      (made : ∀ element ∈ elements, Constructible element) : Constructible (block elements declared)
  | prog {elements : List Node} (declared : List Variable)
      (made : ∀ element ∈ elements, Constructible element) : Constructible (prog elements declared)
  | func (name : Option String) {parameters : List Node} {body : Node}
      (made : ∀ child ∈ parameters ++ [body], Constructible child) :
      Constructible (func name parameters body)
  | format {parts : List Node} (made : ∀ part ∈ parts, Constructible part) :
      Constructible (format parts)
  | object {pairs : List (Node × Node)}
      (made : ∀ child ∈ pairs.flatMap (fun pair => [pair.1, pair.2]), Constructible child) :
      Constructible (object pairs)
  | forEach {target source body : Node} {consequent otherwise : Option Node}
      (made : ∀ child ∈ target :: source :: body :: (consequent.toList ++ otherwise.toList),
        Constructible child) :
      Constructible (forEach target source body consequent otherwise)
  /-- An assembly of a tuple, from the elements it starts with through any steps. -/
  | tupleAssembly {elements : List Node} {steps : List TupleStep}
      (elements_made : ∀ element ∈ elements, Constructible element)
      (steps_made : ∀ step ∈ steps, ∀ node ∈ step.nodes, Constructible node) :
      Constructible ((TupleAssembly.ofList elements).run steps).finish
  | switchAssembly {scrutinee node : Node} {steps : List SwitchStep}
      (scrutinee_made : Constructible scrutinee)
      (steps_made : ∀ step ∈ steps, ∀ node ∈ step.nodes, Constructible node)
      (built : ((SwitchAssembly.ofScrutinee scrutinee).run steps).finish = .ok node) :
      Constructible node
  | withToken {node : Node} (token : Token) (made : Constructible node) :
      Constructible (node.withToken token)
  | child {node child : Node} (made : Constructible node) (member : child ∈ node.children) :
      Constructible child
  /-- A form of constructible nodes, wherever the form is from and however it was edited. -/
  | ofForm {form : Form Node} {node : Node} (made : ∀ child ∈ form.children, Constructible child)
      (built : ofForm form = .ok node) : Constructible node
  /-- A node that is read off the front of any lexemes. -/
  | read {levels : Nat} {lexemes rest : List Json.Lexeme} {node : Node}
      (taken : read levels lexemes = .ok (node, rest)) : Constructible node

namespace Constructible

variable {property : Node → Prop}

theorem of_ofJsonText {text : String} {node : Node} (read : ofJsonText text = .ok node) :
    Constructible node := by
  unfold ofJsonText readText Json.Reader.run at read
  split at read
  · cases read
  · cases read
    exact .read ‹_›
  · cases read

theorem operands_some {tag : String} {position : Nat} {arguments : List (Option Node)}
    {operands : List Node} (collected : Node.operands tag position arguments = .ok operands) :
    arguments = operands.map some := by
  induction arguments generalizing position operands with
  | nil => cases collected; rfl
  | cons argument rest ih =>
      cases argument with
      | none => cases collected
      | some operand =>
          cases others : Node.operands tag (position + 1) rest with
          | error cause =>
              simp only [Node.operands, others] at collected
              cases collected
          | ok later =>
              simp only [Node.operands, others, Except.map, Except.ok.injEq] at collected
              rw [← collected, List.map_cons, ← ih others]

/--
What holds of the nodes built from forms over nodes of which it holds, and goes on to hold when
such a node gets a token or is taken apart, holds of every constructible node.
-/
theorem invariant
    (builds : ∀ form node, (∀ child ∈ form.children, property child) →
      Node.ofForm form = .ok node → property node)
    (tokened : ∀ token node, property node → property (node.withToken token))
    (inherited : ∀ node, property node → ∀ child ∈ node.children, property child)
    {node : Node} (constructible : Constructible node) : property node := by
  have fromForm (form : Form Node) (children : ∀ child ∈ form.children, property child)
      {built : Node} (equal : Node.ofForm form = .ok built) : property built :=
    builds form built children equal
  have free (form : Form Node) (children : ∀ child ∈ form.children, property child)
      (faultless : (form.dropSentinels isSentinel).fault? = none) : property (ofFreeForm form) := by
    refine fromForm form children ?_
    simp only [Node.ofForm, faultless]
    rfl
  have mapped {outcome : Except Malformation Node} {token : Token} {result : Node}
      (holds : ∀ {built}, outcome = .ok built → property built)
      (equal : outcome.map (Node.withToken token) = .ok result) : property result := by
    cases outcome with
    | error cause => cases equal
    | ok built =>
        cases equal
        exact tokened token built (holds rfl)
  have operation {token : Token} {arguments : List (Option Node)} {result : Node}
      (holds : ∀ argument, some argument ∈ arguments → property argument)
      (equal : Node.op token arguments = .ok result) : property result := by
    unfold Node.op at equal
    split at equal
    · cases equal
    · split at equal
      · cases equal
      · rename_i tag named operands collected
        refine mapped (fromForm _ (fun child member => holds child ?_)) equal
        rw [operands_some collected]
        exact List.mem_map_of_mem member
  induction constructible with
  | value literal => exact free _ (List.forall_mem_nil _) rfl
  | sentinel => exact free (.value .sentinel) (List.forall_mem_nil _) rfl
  | var built => exact fromForm (.var _) (List.forall_mem_nil _) built
  | varOfToken built =>
      unfold Node.varOfToken at built
      split at built
      · cases built
      · exact mapped (fromForm (.var _) (List.forall_mem_nil _)) built
  | spread _ ih => exact free _ (by simpa [Form.children] using ih) rfl
  | assign _ _ target source => exact free _ (by simp [Form.children, target, source]) rfl
  | compoundAssign _ _ _ target source =>
      exact free _ (by simp [Form.children, target, source]) rfl
  | tuple _ ih => exact free _ ih rfl
  | call _ ih => exact free _ ih rfl
  | index _ ih => exact free _ ih rfl
  | loop _ ih => exact free _ ih rfl
  | cond _ ih => exact free _ ih rfl
  | branch built =>
      unfold Node.branch at built
      split at built
      · cases built
      · split at built
        · cases built
        · exact fromForm (.branch _) (List.forall_mem_nil _) built
  | op _ built ih => exact operation ih built
  | unary _ built ih => exact operation (by simpa using ih) built
  | binary _ _ built left right => exact operation (by simp [left, right]) built
  | imports built => exact fromForm (.imports _) (List.forall_mem_nil _) built
  | proto _ ih => exact free _ ih rfl
  | returns _ ih => exact free _ (by simpa [Form.children] using ih) rfl
  | block _ _ ih => exact free _ ih rfl
  | prog _ _ ih => exact free _ ih rfl
  | func _ _ ih => exact free _ ih rfl
  | format _ ih => exact free _ ih rfl
  | object _ ih => exact free _ ih rfl
  | forEach _ ih => exact free _ ih rfl
  | @tupleAssembly elements steps _ _ started stepped =>
      have made : property (Node.tuple ((TupleAssembly.ofList elements).run steps).elements) := by
        refine free _ (fun child member => ?_) rfl
        rw [TupleAssembly.elements_run] at member
        rcases List.mem_append.mp member with atStart | later
        · exact started child atStart
        · obtain ⟨step, inSteps, inStep⟩ := List.mem_flatMap.mp later
          exact stepped step inSteps child inStep
      unfold TupleAssembly.finish
      dsimp only
      split
      · exact made
      · exact tokened _ _ made
  | @switchAssembly scrutinee node steps _ _ built started stepped =>
      have made {switch : Node} (equal : Node.ofForm
          ((SwitchAssembly.ofScrutinee scrutinee).run steps).form = .ok switch) :
          property switch := by
        refine fromForm _ (fun child member => ?_) equal
        rw [SwitchAssembly.children_form] at member
        rcases SwitchAssembly.mem_nodes_run member with atStart | ⟨step, inSteps, inStep⟩
        · have onlyScrutinee : child = scrutinee := by
            simpa [SwitchAssembly.nodes, SwitchAssembly.ofScrutinee] using atStart
          exact onlyScrutinee ▸ started
        · exact stepped step inSteps child inStep
      generalize (SwitchAssembly.ofScrutinee scrutinee).run steps = assembly at made built
      cases outcome : Node.ofForm assembly.form with
      | error cause =>
          simp only [SwitchAssembly.finish, SwitchAssembly.form] at built outcome
          simp [outcome, bind, Except.bind] at built
      | ok switch =>
          simp only [SwitchAssembly.finish, SwitchAssembly.form] at built outcome
          simp only [outcome, bind, Except.bind] at built
          split at built
          · cases built
            exact made outcome
          · cases built
            exact tokened _ _ (made outcome)
  | withToken token _ ih => exact tokened token _ ih
  | child _ member ih => exact inherited _ ih _ member
  | ofForm _ built ih => exact fromForm _ ih built
  | read taken => exact read_yields builds _ taken

/-- Every node of a constructible tree is regular. -/
theorem regular_throughout {node : Node} (constructible : Constructible node) :
    node.Throughout Regular := by
  refine constructible.invariant (fun form node children built => ?_)
    (fun token node holds => ?_) (fun node holds => (throughout_iff.mp holds).2)
  · refine throughout_iff.mpr ⟨regular_of_ofForm built, fun child member => children child ?_⟩
    obtain ⟨rfl, -⟩ := form_of_ofForm built
    exact Form.mem_children_of_dropSentinels member
  · obtain ⟨regular, children⟩ := throughout_iff.mp holds
    refine throughout_iff.mpr ⟨regular.withToken token, ?_⟩
    rwa [children_withToken]

/--
However a tree was made, each of its nodes has a sound form, and none that is a program has a
token.
-/
theorem sound_everywhere {node : Node} (constructible : Constructible node) :
    ∀ inner ∈ node.walk,
      inner.form.Sound isSentinel ∧ (inner.kind = .prog → inner.token? = none) :=
  fun inner visited =>
    have regular := constructible.regular_throughout inner visited
    ⟨regular.sound, regular.program⟩

end Constructible

/-- A case that falls through to the default body, beside a clause that vanishes. -/
theorem sound_everywhere_falling_case :
    ∃ node, ((SwitchAssembly.ofScrutinee (value (.int 1))).run
        [.fallingCase "==" (some (value (.int 2))) sentinel, .withFallback (prog [] []),
          .withOtherwise sentinel]).finish = .ok node ∧
      ∀ inner ∈ node.walk,
        inner.form.Sound isSentinel ∧ (inner.kind = .prog → inner.token? = none) := by
  have steps_made : ∀ step ∈ [SwitchStep.fallingCase "==" (some (value (.int 2))) sentinel,
      .withFallback (prog [] []), .withOtherwise sentinel],
      ∀ node ∈ step.nodes, Constructible node := by
    simp only [List.forall_mem_cons, SwitchStep.nodes, Option.toList_some, List.cons_append,
      List.nil_append]
    have none := List.forall_mem_nil Constructible
    exact ⟨⟨.value _, .sentinel, none⟩, ⟨.prog [] none, none⟩, ⟨.sentinel, none⟩,
      List.forall_mem_nil _⟩
  exact ⟨_, rfl, Constructible.sound_everywhere (.switchAssembly (.value _) steps_made rfl)⟩

end Node
end SyntaxTree
