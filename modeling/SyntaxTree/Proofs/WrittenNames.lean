import SyntaxTree.Proofs.CanonicalText
import SyntaxTree.Proofs.Constructible

/-!
# Names in canonical forms

Names that are checked are not empty, so a variable is written as something, and an operation and
an import write their names, unless the name is the mark that asks for a space. The variables that
a block declares are not checked: those are written whose text is neither empty nor that mark.
-/

namespace SyntaxTree

open Template (fill fill_intercalate fill_ofText ofText)

variable {α : Type}

/-- Texts between parentheses, with spaces between them. -/
def Text.listed (texts : List (List Char)) : List Char :=
  '(' :: (List.intercalate [' '] texts ++ [')'])

/-- A word shows in a list when it is neither nothing nor the mark. -/
def Text.isShown (word : List Char) : Bool := decide (word ≠ [] ∧ word ≠ [' '])

theorem Text.isShown_toList {name : String} (named : name ≠ "") (marked : name ≠ " ") :
    isShown name.toList = true := by
  apply decide_eq_true
  constructor
  · exact toList_ne_nil named
  · exact fun mark => marked (String.toList_inj.mp mark)

namespace Item

theorem isLeadingSpace_atom (word : List Char) :
    (atom word : Item α).isLeadingSpace = decide (word = [' ']) := by
  by_cases space : word = [' ']
  · subst space
    rfl
  · simp [isLeadingSpace, space]

theorem templates_words (words : List (List Char)) (rest : List (Item α)) :
    templates (words.map .atom ++ rest) =
      (words.filter Text.isShown).map ofText ++ templates rest := by
  induction words with
  | nil => rfl
  | cons word others ih =>
      have vanishes : (ofText word : List (Letter α)).isEmpty = decide (word = []) := by
        cases word <;> rfl
      simp only [List.map_cons, List.cons_append, templates, template, isLeadingSpace_atom,
        vanishes, ih, List.filter_cons, Text.isShown]
      by_cases space : word = [' '] <;> by_cases empty : word = [] <;> simp [space, empty]

theorem templates_trees (children : List α) :
    templates (children.map .tree) = children.map (fun child => [.place child]) := by
  induction children with
  | nil => rfl
  | cons child rest ih => simp [templates, template, isLeadingSpace, ih]

section Fill

variable (write : α → List Char)

theorem fill_trees (children : List α) :
    (templates (children.map .tree)).map (fill write) = children.map write := by
  simp [templates_trees, fill, Function.comp_def]

theorem fill_words (words : List (List Char)) (rest : List (Item α)) :
    (templates (words.map .atom ++ rest)).map (fill write) =
      words.filter Text.isShown ++ (templates rest).map (fill write) := by
  simp [templates_words, Function.comp_def]

theorem fill_group (items : List (Item α)) :
    fill write (template (.group items)) = Text.listed ((templates items).map (fill write)) := by
  simp [template, Text.listed, fill, fill_intercalate]

theorem fill_listTemplate (word : List Char) (rest : List (Item α)) :
    fill write (listTemplate (.atom word :: rest)) =
      if word = [' '] then ' ' :: Text.listed ((templates rest).map (fill write))
      else Text.listed ((templates (.atom word :: rest)).map (fill write)) := by
  rw [listTemplate, isLeadingSpace_atom]
  by_cases space : word = [' '] <;> simp [space, fill, fill_group]

end Fill

end Item

namespace Form

open Item (fill_group fill_listTemplate fill_trees fill_words)

variable (write : α → List Char)

/-- An operator that shows is the first item, before one item for each operand. -/
theorem fill_op {operation : Operation α} (named : operation.tag ≠ "") :
    fill write (template (.op operation)) =
      if operation.tag = " " then ' ' :: Text.listed (operation.operands.map write)
      else Text.listed (operation.tag.toList :: operation.operands.map write) := by
  obtain ⟨tag, operands⟩ := operation
  refine (fill_listTemplate write tag.toList (operands.map .tree)).trans ?_
  by_cases mark : tag = " "
  · subst mark
    have marked : " ".toList = [' '] := rfl
    rw [if_pos marked, if_pos rfl, fill_trees]
  · have unmarked : tag.toList ≠ [' '] := fun same => mark (String.toList_inj.mp same)
    have parts := fill_words write [tag.toList] (operands.map .tree)
    rw [fill_trees, List.filter_cons, Text.isShown_toList named mark] at parts
    rw [if_neg unmarked, if_neg mark]
    exact congrArg Text.listed parts

theorem fill_imports {name : String} (named : name ≠ "") :
    fill write (template (.imports name : Form α)) =
      Text.listed ("import".toList :: if name = " " then [] else [name.toList]) := by
  have parts := fill_words write ["import".toList, name.toList] []
  refine (fill_listTemplate write "import".toList [.word name]).trans ?_
  rw [if_neg (by decide)]
  refine congrArg Text.listed (parts.trans ?_)
  by_cases mark : name = " "
  · subst mark
    rfl
  · simp only [List.filter_cons, Text.isShown_toList named mark, if_neg mark]
    rfl

theorem declarations_eq {declared : List Variable} (declares : declared ≠ []) :
    (items.declarations declared : Item α) =
      .group (("var".toList :: declared.map Variable.canonical).map .atom) := by
  cases declared with
  | nil => exact absurd rfl declares
  | cons first rest => simp [items.declarations, Item.word]

/-- The declared variables that show stand in a list of their own. -/
theorem fill_declarations {declared : List Variable} (declares : declared ≠ []) :
    fill write (items.declarations declared : Item α).template =
      Text.listed ("var".toList :: (declared.map Variable.canonical).filter Text.isShown) := by
  have names := fill_words write ("var".toList :: declared.map Variable.canonical) []
  rw [List.append_nil] at names
  rw [declarations_eq declares, fill_group, names]
  exact congrArg Text.listed (List.append_nil _)

theorem fill_block {sequence : Block α} (declares : sequence.declared ≠ []) :
    fill write (template (.block sequence)) =
      Text.listed ("block".toList ::
        Text.listed ("var".toList ::
          (sequence.declared.map Variable.canonical).filter Text.isShown) ::
        sequence.elements.map write) := by
  obtain ⟨elements, declared⟩ := sequence
  have whole := fill_words write ["block".toList]
    (items.declarations declared :: elements.map .tree)
  have parts : (Item.templates (items.declarations declared :: elements.map .tree)).map
      (fill write) = fill write (items.declarations declared).template :: elements.map write := by
    rw [declarations_eq declares, ← fill_trees write elements]
    rfl
  refine (fill_listTemplate write "block".toList
    (items.declarations declared :: elements.map .tree)).trans ?_
  rw [if_neg (by decide)]
  refine congrArg Text.listed (whole.trans ?_)
  rw [parts, fill_declarations write declares]
  rfl

end Form

namespace Node

/--
However a tree was made, in the canonical form of each of its nodes a variable is something, and
an operator, the name of an import and declared variables are items, unless they are the mark that
asks for a space or, where they are only declared, nothing.
-/
theorem Constructible.names_written {node : Node} (constructible : Constructible node) :
    ∀ inner ∈ node.walk,
      inner.canonical = .ok inner.canonicalText ∧
      (∀ reference, inner.form = .var reference → inner.canonicalText ≠ []) ∧
      (∀ operation, inner.form = .op operation →
        (∀ operand ∈ operation.operands, operand.canonicalText ≠ []) ∧ operation.tag ≠ "" ∧
          inner.canonicalText =
            if operation.tag = " " then
              ' ' :: Text.listed (operation.operands.map canonicalText)
            else
              Text.listed (operation.tag.toList :: operation.operands.map canonicalText)) ∧
      (∀ name, inner.form = .imports name →
        name ≠ "" ∧ inner.canonicalText =
          Text.listed ("import".toList :: if name = " " then [] else [name.toList])) ∧
      (∀ sequence, inner.form = .block sequence ∨ inner.form = .prog sequence →
        sequence.declared ≠ [] →
          inner.canonicalText = Text.listed ("block".toList ::
            Text.listed ("var".toList ::
              (sequence.declared.map Variable.canonical).filter Text.isShown) ::
            sequence.elements.map canonicalText)) := by
  intro inner visited
  have regular : inner.Throughout Regular := constructible.regular_throughout.of_mem_walk visited
  obtain ⟨canonical, filled, nonempty⟩ := canonical_of_regular regular
  obtain ⟨here, below⟩ := throughout_iff.mp regular
  have sound := here.sound
  refine ⟨canonical, fun _ _ => nonempty, ?_, ?_, ?_⟩
  · intro operation form
    rw [form] at sound filled
    refine ⟨fun operand member => ?_, sound, ?_⟩
    · refine (canonical_of_regular (below operand ?_)).2.2
      rw [children, form]
      exact member
    · rw [filled, Form.fill_op canonicalText sound]
  · intro name form
    rw [form] at sound filled
    refine ⟨sound, ?_⟩
    rw [filled, Form.fill_imports canonicalText sound]
  · rintro sequence (form | form) declares
    · rw [filled, form, Form.fill_block canonicalText declares]
    · rw [filled, form, ← Form.fill_block canonicalText declares]
      rfl

/-- A block that declares one name and nothing, with an import of the mark. -/
theorem names_written_marked_import :
    let imported := mk none true true (.imports " ")
    let node := block [imported] [⟨"x", true⟩, ⟨"", false⟩]
    node.Constructible ∧ imported ∈ node.walk ∧
      imported.canonicalText = Text.listed ["import".toList] ∧
      node.canonicalText = Text.listed ["block".toList,
        Text.listed ["var".toList, "x!".toList], imported.canonicalText] := by
  intro imported node
  have elements_made : ∀ element ∈ [imported], element.Constructible :=
    List.forall_mem_singleton.mpr (.imports (rfl : imports " " = .ok imported))
  have made : node.Constructible := .block _ elements_made
  have visited : imported ∈ node.walk := List.mem_cons_of_mem _ (List.mem_singleton_self imported)
  obtain ⟨-, -, -, importing, -⟩ := Constructible.names_written made imported visited
  obtain ⟨-, -, -, -, declaring⟩ := Constructible.names_written made node List.mem_cons_self
  exact ⟨made, visited, (importing " " rfl).2, declaring _ (.inl rfl) (List.cons_ne_nil _ _)⟩

/-- The name of an import, an operator and declared variables that are not written. -/
theorem names_vanish :
    (∃ node, imports " " = .ok node ∧ node.canonical = .ok "(import)".toList) ∧
      (∃ node, unary ⟨.text " ", 1, 1⟩ (value (.int 1)) = .ok node ∧
        node.canonical = .ok " (1)".toList) ∧
      (block [] [⟨" ", false⟩, ⟨"", false⟩]).canonical = .ok "(block (var))".toList :=
  ⟨⟨_, rfl, rfl⟩, ⟨_, rfl, rfl⟩, rfl⟩

end Node

end SyntaxTree
