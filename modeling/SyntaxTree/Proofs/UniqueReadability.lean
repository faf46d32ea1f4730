import SyntaxTree.Proofs.Constructible
import SyntaxTree.Proofs.Observation
import SyntaxTree.Proofs.ShapeReading

/-!
# Canonical forms are uniquely readable

Every tree whose names are identifiers and whose operators are made of symbols has a canonical form,
the text of its shape. The shape is determined by the text and determines the tree, but for what
equality of trees does not see and for whether a block is a program.
-/

namespace SyntaxTree

variable {α β : Type}

namespace Form

theorem progAsBlock_map (f : α → β) (form : Form α) :
    (form.map f).progAsBlock = form.progAsBlock.map f := by
  cases form <;> rfl

theorem children_progAsBlock (form : Form α) : form.progAsBlock.children = form.children := by
  cases form <;> rfl

theorem isLValue_progAsBlock (childIsLValue : α → Bool) (form : Form α) :
    form.progAsBlock.isLValue childIsLValue = form.isLValue childIsLValue := by
  cases form <;> rfl

theorem isRValue_progAsBlock (childIsRValue : α → Bool) (form : Form α) :
    form.progAsBlock.isRValue childIsRValue = form.isRValue childIsRValue := by
  cases form <;> rfl

theorem canonical_progAsBlock (write : α → Except UnprintableLiteral (List Char))
    (form : Form α) : form.progAsBlock.canonical write = form.canonical write := by
  cases form <;> rfl

end Form

namespace Node

/-! ### Shapes of trees -/

def shape : Node → Shape := fold (fun _ shapes => shapes.shape)

theorem shape_eq (node : Node) : node.shape = (node.form.map shape).shape := by
  rw [shape, fold_eq]

/-- Names and operators are as they should be in every node of the tree. -/
def Named (node : Node) : Prop := node.Throughout (fun inner => inner.form.Named)

/-- The shape of a tree is proper, is that of a tree, and is written as the canonical form. -/
theorem shape_of_named {node : Node} (named : node.Named) :
    node.shape.Proper ∧ node.shape.kind? ≠ none ∧ node.canonical = .ok node.shape.text := by
  induction node using Node.induction with
  | step node ih =>
      obtain ⟨here, below⟩ := throughout_iff.mp named
      have formNamed : (node.form.map shape).Named := (Form.named_map _ _).mpr here
      have proper : ∀ child ∈ (node.form.map shape).children, child.Proper := by
        rw [Form.children_map, List.forall_mem_map]
        exact fun child member => (ih child member (below child member)).1
      have texts : node.form.map canonical =
          (node.form.map shape).map (fun shape => .ok shape.text) := by
        rw [Form.map_map]
        exact Form.map_congr (fun child member => (ih child member (below child member)).2.2)
      refine ⟨?_, ?_, ?_⟩
      · rw [shape_eq]
        exact Form.proper_shape formNamed proper
      · rw [shape_eq, Form.kind?_shape formNamed]
        exact Option.some_ne_none _
      · rw [canonical, fold_eq, ← canonical, texts, Form.canonical_map, shape_eq]
        exact Form.canonical_eq_shape (Form.proper_shape formNamed proper)

/-! ### Programs as blocks -/

/-- The tree with a block in place of every program. -/
def progsAsBlocks : Node → Node :=
  fold (fun node form => .mk node.token? node.isLValue node.isRValue form.progAsBlock)

/-- The tree with blocks for programs, as equality of trees sees it. -/
def skeleton (node : Node) : Node := node.progsAsBlocks.erased

theorem skeleton_eq (node : Node) :
    node.skeleton =
      .mk none node.isLValue node.isRValue (node.form.map skeleton).progAsBlock.plain := by
  rw [skeleton, progsAsBlocks, fold_eq, ← progsAsBlocks, erased_eq]
  simp only [isLValue, isRValue, form, ← Form.progAsBlock_map, Form.map_map]
  rfl

/-- The flags of a regular node are those of its form, so the forms decide. -/
theorem skeleton_of_regular {node : Node} (regular : node.Regular) :
    node.skeleton = ofCheckedForm (node.form.map skeleton).progAsBlock.plain := by
  have lvalue : ∀ child : Node, child.skeleton.isLValue = child.isLValue := by
    intro child
    rw [skeleton_eq]
    rfl
  have rvalue : ∀ child : Node, child.skeleton.isRValue = child.isRValue := by
    intro child
    rw [skeleton_eq]
    rfl
  rw [skeleton_eq, ofCheckedForm, Form.isLValue_plain, Form.isRValue_plain,
    Form.isLValue_progAsBlock, Form.isRValue_progAsBlock, Form.isLValue_map, Form.isRValue_map,
    regular.lvalue, regular.rvalue]
  simp only [lvalue, rvalue]

theorem canonical_progsAsBlocks (node : Node) : node.progsAsBlocks.canonical = node.canonical := by
  induction node using Node.induction with
  | step node ih =>
      have images : (node.form.map progsAsBlocks).map canonical = node.form.map canonical := by
        rw [Form.map_map]
        exact Form.map_congr ih
      rw [canonical, fold_eq, fold_eq _ node, ← canonical, progsAsBlocks, fold_eq, ← progsAsBlocks,
        form, ← Form.progAsBlock_map, images, Form.canonical_progAsBlock]

/-! ### Trees from their shapes -/

theorem skeleton_eq_of_shape_eq {first second : Node} (firstRegular : first.Throughout Regular)
    (secondRegular : second.Throughout Regular) (firstNamed : first.Named)
    (secondNamed : second.Named) (same : first.shape = second.shape) :
    first.skeleton = second.skeleton := by
  induction first using Node.induction generalizing second with
  | step first ih =>
      obtain ⟨firstHere, firstBelow⟩ := throughout_iff.mp firstRegular
      obtain ⟨secondHere, secondBelow⟩ := throughout_iff.mp secondRegular
      obtain ⟨firstNames, firstNamedBelow⟩ := throughout_iff.mp firstNamed
      obtain ⟨secondNames, secondNamedBelow⟩ := throughout_iff.mp secondNamed
      have faultless {node : Node} (regular : node.Regular) :
          (node.form.map shape).fault? = none := by
        rw [Form.fault?_map]
        exact (Form.sound_iff.mp regular.sound).2
      have trees {node : Node} (named : ∀ child ∈ node.children, child.Named) :
          ∀ child ∈ (node.form.map shape).children, child.kind? ≠ none := by
        rw [Form.children_map, List.forall_mem_map]
        exact fun child member => (shape_of_named (named child member)).2.1
      rw [shape_eq, shape_eq second] at same
      have forms := Form.plain_eq_of_shape_eq ((Form.named_map _ _).mpr firstNames)
        ((Form.named_map _ _).mpr secondNames) (faultless firstHere) (faultless secondHere)
        (trees firstNamedBelow) (trees secondNamedBelow) same
      have children (form : Form Node) : form.progAsBlock.plain.children = form.children := by
        rw [Form.children_plain, Form.children_progAsBlock]
      rw [Form.progAsBlock_map, Form.progAsBlock_map, Form.plain_map, Form.plain_map] at forms
      have : Nonempty Node := ⟨first⟩
      have skeletons := Form.map_eq_map_of_imp (g := skeleton) (fun one inside other within equal => by
        rw [children] at inside within
        exact ih one inside (firstBelow one inside) (secondBelow other within)
          (firstNamedBelow one inside) (secondNamedBelow other within) equal) forms
      rw [skeleton_of_regular firstHere, skeleton_of_regular secondHere, Form.progAsBlock_map,
        Form.progAsBlock_map, Form.plain_map, Form.plain_map, skeletons]

/--
Trees that were made, with names that are identifiers and operators made of symbols, have canonical
forms, and the same one just when they are equal once every program in them is read as a block.
-/
theorem canonical_eq_iff {first second : Node} (firstMade : first.Constructible)
    (secondMade : second.Constructible) (firstNamed : first.Named) (secondNamed : second.Named) :
    (∃ text, first.canonical = .ok text) ∧
      (first.canonical = second.canonical ↔
        (first.progsAsBlocks == second.progsAsBlocks) = true) := by
  obtain ⟨firstProper, -, firstText⟩ := shape_of_named firstNamed
  obtain ⟨secondProper, -, secondText⟩ := shape_of_named secondNamed
  refine ⟨⟨_, firstText⟩, ?_⟩
  rw [beq_iff_erased_eq]
  constructor
  · intro same
    rw [firstText, secondText] at same
    exact skeleton_eq_of_shape_eq firstMade.regular_throughout secondMade.regular_throughout
      firstNamed secondNamed (firstProper.text_inj secondProper (Except.ok.inj same))
  · intro same
    rw [← canonical_progsAsBlocks, ← canonical_erased, same, canonical_erased,
      canonical_progsAsBlocks]

/-- A program and a block of the same elements, with a compound assignment to a declared variable. -/
theorem canonical_eq_iff_prog_block :
    let assigned := mk none true true (.var ⟨"x", true⟩)
    let elements := [compoundAssign assigned (value (.int 7)) "+"]
    let program := prog elements [⟨"x", true⟩]
    let sequence := block elements [⟨"x", true⟩]
    (program.Constructible ∧ sequence.Constructible ∧ program.Named ∧ sequence.Named) ∧
      (∃ text, program.canonical = .ok text) ∧
      (program.canonical = sequence.canonical ↔
        (program.progsAsBlocks == sequence.progsAsBlocks) = true) ∧
      program.canonical = .ok "(block (var x!) (+= x! 7))".toList ∧
      sequence.canonical = .ok "(block (var x!) (+= x! 7))".toList := by
  intro assigned elements program sequence
  have made : ∀ element ∈ elements, element.Constructible :=
    List.forall_mem_singleton.mpr
      (.compoundAssign "+" (.var (rfl : var "x" true = .ok assigned)) (.value _))
  have identifier : Text.Identifier "x" :=
    ⟨by decide, List.all_eq_true.mp (by decide), by rintro char ⟨⟩; rfl, by decide⟩
  have symbolic : Text.Symbolic "+" := ⟨by decide, List.all_eq_true.mp (by decide)⟩
  have elementsNamed : ∀ element ∈ elements, element.Named := by
    refine List.forall_mem_singleton.mpr (throughout_iff.mpr ⟨?_, ?_⟩)
    · rintro _ ⟨⟩
      exact symbolic
    · exact List.forall_mem_cons.mpr ⟨throughout_iff.mpr ⟨identifier, nofun⟩,
        List.forall_mem_singleton.mpr (throughout_iff.mpr ⟨trivial, nofun⟩)⟩
  have declared : ∀ reference ∈ [(⟨"x", true⟩ : Variable)], Text.Identifier reference.name :=
    List.forall_mem_singleton.mpr identifier
  have programNamed : program.Named := throughout_iff.mpr ⟨declared, elementsNamed⟩
  have sequenceNamed : sequence.Named := throughout_iff.mpr ⟨declared, elementsNamed⟩
  have programMade : program.Constructible := .prog _ made
  have sequenceMade : sequence.Constructible := .block _ made
  obtain ⟨written, equality⟩ :=
    canonical_eq_iff programMade sequenceMade programNamed sequenceNamed
  exact ⟨⟨programMade, sequenceMade, programNamed, sequenceNamed⟩, written, equality,
    rfl, rfl⟩

end Node
end SyntaxTree
