import SyntaxTree.Proofs.CanonicalText
import SyntaxTree.Proofs.Constructible
import SyntaxTree.Proofs.JsonTemplates
import SyntaxTree.Proofs.Numbering
import SyntaxTree.Proofs.Observation

/-!
# Texts in pieces

The canonical form of a node and its JSON text are pieces with the texts of the children between
them, in the order of the list of children. The pieces are those of the numbered outline, so they
depend on the node without its children only, and children that are written alike can stand for
each other.
-/

namespace SyntaxTree

open Json (Codec Reader)
open Template (contents fill fill_eq_spliced length_pieces pieces spliced)

variable {α β : Type}

/-- The places of a numbered template are filled with what has the numbers. -/
theorem Template.fill_numbers {template : List (Letter Nat)} {children : List β}
    (numbers : contents template = List.range children.length) {write : Nat → List Char}
    {text : β → List Char}
    (written : ∀ place child, children[place]? = some child → write place = text child) :
    fill write template = spliced (pieces template) (children.map text) := by
  rw [fill_eq_spliced, numbers]
  refine congrArg (spliced (pieces template)) ?_
  apply List.ext_getElem
  · simp
  · intro place within bound
    rw [List.length_map] at bound
    simpa using written place children[place] (List.getElem?_eq_getElem bound)

namespace Form

theorem toJson_map (f : α → β) (child : Codec β) (reader : Reader α) (form : Form α) :
    (form.map f).toJson child = form.toJson ⟨reader, fun inner => child.write (f inner)⟩ := by
  rw [toJson, toJson, kind_map, write_map f child reader]

theorem toJson_plain (child : Codec α) (form : Form α) :
    form.plain.toJson child = form.toJson child := by
  rw [toJson, toJson, kind_plain, write_plain]

end Form

namespace Node

/-- The form of a node without its children, and without what is never written. -/
def outline (node : Node) : Form Unit := node.form.plain.outline

theorem length_children_outline (node : Node) :
    node.outline.children.length = node.children.length := by
  rw [outline, Form.length_children_outline, Form.children_plain]
  rfl

theorem children_numbering_outline (node : Node) :
    node.outline.numbering.children = List.range node.children.length := by
  rw [Form.children_numbering, length_children_outline]

/-- The outline with the children in the places of their numbers. -/
theorem numbering_outline (node : Node) :
    node.outline.numbering.map (node.children[·]?) = node.form.plain.map some := by
  have same := Form.numbering_outline_map node.form.plain
  rwa [Form.children_plain] at same

theorem canonicalText_eq_spliced {node : Node} (regular : node.Throughout Regular) :
    node.canonicalText =
      spliced (pieces node.outline.numbering.template) (node.children.map canonicalText) := by
  let write (child : Option Node) : Except UnprintableLiteral (List Char) :=
    (child.map canonical).getD (.ok [])
  let text (place : Nat) : List Char := (node.children[place]?.map canonicalText).getD []
  have written : ∀ place ∈ node.outline.numbering.children,
      write node.children[place]? = .ok (text place) ∧ text place ≠ [] := by
    rw [children_numbering_outline]
    intro place member
    have within := List.mem_range.mp member
    have below := (throughout_iff.mp regular).2 node.children[place] (List.getElem_mem within)
    obtain ⟨canonical, -, nonempty⟩ := canonical_of_regular below
    simp only [write, text, List.getElem?_eq_getElem within]
    exact ⟨canonical, nonempty⟩
  have numbered : node.canonical =
      node.outline.numbering.canonical (fun place => write node.children[place]?) := by
    rw [← Form.canonical_map, numbering_outline, Form.canonical_map, Form.canonical_plain]
    exact canonical_eq node
  apply Except.ok.inj
  rw [← (canonical_of_regular regular).1, numbered, Form.canonical_eq_fill written]
  refine congrArg Except.ok (Template.fill_numbers ?_ (fun place child found => ?_))
  · rw [Form.contents_template, children_numbering_outline]
  · simp only [text, found]
    rfl

/-- The pieces of the JSON text of all nodes with an outline. -/
theorem exists_jsonPieces (outline : Form Unit) :
    ∃ jsonPieces : List (List Char), jsonPieces.length = outline.children.length + 1 ∧
      ∀ node : Node, node.outline = outline →
        node.toJson.compact = spliced jsonPieces (node.children.map (·.toJson.compact)) := by
  obtain ⟨template, numbers, filled⟩ := outline.numbering.toJson_around
  refine ⟨pieces template, ?_, ?_⟩
  · rw [length_pieces, numbers, Form.children_numbering, List.length_range]
  · rintro node rfl
    let child : Codec (Option Node) := ⟨Reader.fail (.fault .invalid), fun inner =>
      (inner.map toJson).getD .null⟩
    have numbered : node.toJson = node.outline.numbering.toJson
        ⟨Reader.fail (.fault .invalid), fun place => child.write node.children[place]?⟩ := by
      rw [← Form.toJson_map, numbering_outline,
        Form.toJson_map some child (Reader.fail (.fault .invalid)), Form.toJson_plain]
      exact toJson_eq node _
    rw [numbered]
    refine (filled _).trans (Template.fill_numbers ?_ ?_)
    · rw [numbers, children_numbering_outline]
    · intro place inner found
      simp only [child, found]
      rfl

/--
The children of a node are those in its places, one each, and its canonical form and its JSON text
are pieces of its own with the texts of its children between them, in their order.
-/
theorem written_around_children :
    (∀ (outline : Form Unit) (children : List Node),
      children.length = outline.children.length →
        ∃ form : Form Node, (form.outline = outline ∧ form.children = children) ∧
          ∀ other : Form Node, other.outline = outline → other.children = children →
            other = form) ∧
    ∃ canonicalPieces jsonPieces : Form Unit → List (List Char),
      ∀ node : Node, node.Constructible →
        (canonicalPieces node.outline).length = node.children.length + 1 ∧
        (jsonPieces node.outline).length = node.children.length + 1 ∧
        (∀ child ∈ node.children,
          child.canonical = .ok child.canonicalText ∧ child.canonicalText ≠ []) ∧
        node.canonical =
          .ok (spliced (canonicalPieces node.outline) (node.children.map canonicalText)) ∧
        node.jsonText.toList =
          spliced (jsonPieces node.outline) (node.children.map (·.jsonText.toList)) ∧
        ∀ other : Node, other.Constructible → other.outline = node.outline →
          other.children.map canonical = node.children.map canonical →
            other.canonical = node.canonical := by
  constructor
  · intro outline children count
    have : Nonempty Node := ⟨sentinel⟩
    exact Form.exists_unique_form outline children count
  · refine ⟨fun outline => pieces outline.numbering.template,
      fun outline => (exists_jsonPieces outline).choose, fun node made => ?_⟩
    have regular := made.regular_throughout
    have spliced_canonical {node : Node} (regular : node.Throughout Regular) : node.canonical =
        .ok (spliced (pieces node.outline.numbering.template)
          (node.children.map canonicalText)) := by
      rw [← canonicalText_eq_spliced regular]
      exact (canonical_of_regular regular).1
    obtain ⟨count, json⟩ := (exists_jsonPieces node.outline).choose_spec
    refine ⟨?_, ?_, ?_, spliced_canonical regular, ?_, ?_⟩
    · rw [length_pieces, Form.contents_template, children_numbering_outline, List.length_range]
    · rw [count, length_children_outline]
    · intro child member
      obtain ⟨canonical, -, nonempty⟩ :=
        canonical_of_regular ((throughout_iff.mp regular).2 child member)
      exact ⟨canonical, nonempty⟩
    · simp only [jsonText, String.toList_ofList]
      exact json node rfl
    · intro other otherMade outlines texts
      have same : other.children.map canonicalText = node.children.map canonicalText := by
        have unwrapped := congrArg (List.map (fun text => text.toOption.getD [])) texts
        rwa [List.map_map, List.map_map] at unwrapped
      rw [spliced_canonical regular, spliced_canonical otherMade.regular_throughout, outlines, same]

/-- A number in a tuple, and a variable of the same text in its place. -/
theorem written_around_children_replaced :
    let named := mk none true true (.var ⟨"2", false⟩)
    let node := tuple [value (.int 1), value (.int 2)]
    let other := tuple [value (.int 1), named]
    node.Constructible ∧ other.Constructible ∧ other.outline = node.outline ∧
      other.children.map canonical = node.children.map canonical ∧
      (∃ form : Form Node, form.outline = node.outline ∧ form.children = other.children) ∧
      (∃ canonicalPieces jsonPieces : List (List Char),
        canonicalPieces.length = 3 ∧ jsonPieces.length = 3 ∧
          node.canonical = .ok (spliced canonicalPieces (node.children.map canonicalText)) ∧
          node.jsonText.toList = spliced jsonPieces (node.children.map (·.jsonText.toList))) ∧
      other.canonical = node.canonical := by
  intro named node other
  have nodeMade : node.Constructible :=
    .tuple (List.forall_mem_cons.mpr ⟨.value _, List.forall_mem_singleton.mpr (.value _)⟩)
  have otherMade : other.Constructible :=
    .tuple (List.forall_mem_cons.mpr ⟨.value _,
      List.forall_mem_singleton.mpr (.var (rfl : var "2" false = .ok named))⟩)
  have outlines : other.outline = node.outline := rfl
  have texts : other.children.map canonical = node.children.map canonical := rfl
  obtain ⟨places, canonicalPieces, jsonPieces, written⟩ := written_around_children
  obtain ⟨form, shaped, -⟩ := places node.outline other.children rfl
  obtain ⟨count, jsonCount, -, canonical, json, replaced⟩ := written node nodeMade
  exact ⟨nodeMade, otherMade, outlines, texts, ⟨form, shaped⟩,
    ⟨canonicalPieces node.outline, jsonPieces node.outline, count, jsonCount, canonical, json⟩,
    replaced other otherMade outlines texts⟩

end Node

end SyntaxTree
