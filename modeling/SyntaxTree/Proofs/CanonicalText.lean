import SyntaxTree.Proofs.CanonicalTemplates
import SyntaxTree.Proofs.FormShapes
import SyntaxTree.Proofs.Soundness

/-!
# Canonical texts

Every tree whose forms are sound has a canonical form, which is not empty: lists have parentheses,
literals are words, and names that are checked are there. So the canonical form of a node is the
template of its form filled with the canonical forms of its children.
-/

namespace SyntaxTree

open Template (fill)

variable {α : Type}

theorem Literal.canonical_ne_nil (literal : Literal) : literal.canonical ≠ [] := by
  obtain ⟨char, rest, text, -⟩ := literal.proper_shape.text_eq_cons
  rw [Literal.text_shape] at text
  rw [text]
  exact List.cons_ne_nil char rest

theorem Variable.canonical_ne_nil {reference : Variable} (named : reference.name ≠ "") :
    reference.canonical ≠ [] := by
  simp [canonical, Text.toList_ne_nil named]

theorem Item.listTemplate_ne_nil {items : List (Item α)} (nonempty : items ≠ []) :
    listTemplate items ≠ [] := by
  cases items with
  | nil => exact absurd rfl nonempty
  | cons first rest =>
      rw [listTemplate]
      split <;> exact List.cons_ne_nil _ _

namespace Form

/-- Nothing but a variable without a name is written as nothing. -/
theorem template_ne_nil {isSentinel : α → Bool} {form : Form α} (sound : form.Sound isSentinel) :
    form.template ≠ [] := by
  have listed (some_items : form.items ≠ []) : Item.listTemplate form.items ≠ [] :=
    Item.listTemplate_ne_nil some_items
  cases form with
  | value literal => exact fun empty => literal.canonical_ne_nil (List.map_eq_nil_iff.mp empty)
  | var reference =>
      exact fun empty => Variable.canonical_ne_nil sound (List.map_eq_nil_iff.mp empty)
  | spread inner => exact List.cons_ne_nil _ _
  | _ => exact listed nofun

end Form

namespace Node

/-- The canonical form of a tree, nothing if there is none. -/
def canonicalText (node : Node) : List Char := node.canonical.toOption.getD []

theorem canonical_eq (node : Node) : node.canonical = node.form.canonical canonical := by
  rw [canonical, fold_eq, ← canonical, Form.canonical_map]
  rfl

/-- A tree is written as its template, with its children in the places. -/
theorem canonical_of_regular {node : Node} (regular : node.Throughout Regular) :
    node.canonical = .ok node.canonicalText ∧
      node.canonicalText = fill canonicalText node.form.template ∧ node.canonicalText ≠ [] := by
  induction node using Node.induction with
  | step node ih =>
      obtain ⟨here, below⟩ := throughout_iff.mp regular
      have written : ∀ child ∈ node.form.children,
          child.canonical = .ok child.canonicalText ∧ child.canonicalText ≠ [] := by
        intro child member
        obtain ⟨canonical, -, nonempty⟩ := ih child member (below child member)
        exact ⟨canonical, nonempty⟩
      have filled : node.canonical = .ok (fill canonicalText node.form.template) := by
        rw [canonical_eq, Form.canonical_eq_fill written]
      have text : node.canonicalText = fill canonicalText node.form.template := by
        rw [canonicalText, filled]
        rfl
      constructor
      · rw [text, filled]
      constructor
      · exact text
      · rw [text, Ne, Template.fill_eq_nil_iff]
        · exact Form.template_ne_nil here.sound
        · rw [Form.contents_template]
          exact fun child member => (written child member).2

end Node

end SyntaxTree
