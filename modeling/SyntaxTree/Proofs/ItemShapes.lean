import SyntaxTree.CanonicalForm
import SyntaxTree.Proofs.FormMaps
import SyntaxTree.Proofs.Shape

/-!
# The shapes of items

How items are written depends on their subtrees only through the texts of these, so the canonical
form can be taken one node at a time. Items over shapes have shapes of their own, none when they
are written as nothing, and are written as those shapes are.
-/

namespace SyntaxTree

variable {α β : Type}

namespace Item

mutual

def map (f : α → β) : Item α → Item β
  | .absent => .absent
  | .atom text => .atom text
  | .int value => .int value
  | .group items => .group (mapList f items)
  | .bracket items => .bracket (mapList f items)
  | .tree subtree => .tree (f subtree)
  | .literal value => .literal value

def mapList (f : α → β) : List (Item α) → List (Item β)
  | [] => []
  | item :: rest => map f item :: mapList f rest

end

section Maps

variable (f : α → β) (write : β → Except UnprintableLiteral (List Char))

theorem mapList_eq_map (items : List (Item α)) : mapList f items = items.map (map f) := by
  induction items with
  | nil => rfl
  | cons item rest ih => rw [mapList, ih, List.map_cons]

theorem isLeadingSpace_map (item : Item α) : (item.map f).isLeadingSpace = item.isLeadingSpace := by
  cases item with
  | atom text =>
      by_cases space : text = [' ']
      · subst space
        rfl
      · simp [map, isLeadingSpace, space]
  | _ => rfl

mutual

theorem text_map (item : Item α) :
    text write (item.map f) = text (fun subtree => write (f subtree)) item := by
  cases item with
  | group items => simp only [map, text, texts_map items]
  | bracket items => simp only [map, text, texts_map items]
  | literal value => cases value <;> rfl
  | _ => rfl

theorem texts_map (items : List (Item α)) :
    texts write (mapList f items) = texts (fun subtree => write (f subtree)) items := by
  cases items with
  | nil => rfl
  | cons item rest =>
      simp only [mapList, texts, isLeadingSpace_map, text_map item, texts_map rest]

end

theorem list_map (items : List (Item α)) :
    list write (items.map (map f)) = list (fun subtree => write (f subtree)) items := by
  cases items with
  | nil => rfl
  | cons item rest =>
      simp only [List.map_cons, list, isLeadingSpace_map, text, ← mapList_eq_map, texts_map]
      rw [← mapList, texts_map]

@[simp] theorem word_map (name : String) : (word name).map f = word name := rfl

@[simp] theorem tree_map (subtree : α) : (tree subtree).map f = tree (f subtree) := rfl

@[simp] theorem clause_map (keyword : String) (subtree : Option α) :
    (clause keyword subtree).map f = clause keyword (subtree.map f) := by
  cases subtree <;> rfl

@[simp] theorem ofOption_map (subtree : Option α) :
    (ofOption subtree).map f = ofOption (subtree.map f) := by
  cases subtree <;> rfl

@[simp] theorem group_map (items : List (Item α)) :
    (group items).map f = group (items.map (map f)) := by
  rw [map, mapList_eq_map]

@[simp] theorem bracket_map (items : List (Item α)) :
    (bracket items).map f = bracket (items.map (map f)) := by
  rw [map, mapList_eq_map]

/-- A name is written without regard to the subtrees. -/
theorem name_map (written : String → String) (name : Option String) :
    ((name.map (fun name => word (written name))).getD .absent : Item α).map f =
      (name.map (fun name => word (written name))).getD .absent := by
  cases name <;> rfl

@[simp] theorem listClause_map (keyword : String) (subtrees : List α) :
    (listClause keyword subtrees).map f = listClause keyword (subtrees.map f) := by
  cases subtrees <;> simp [listClause, map, mapList, mapList_eq_map]

end Maps

/-! ### Shapes -/

mutual

/-- The shape of an item, if it is written. A raw literal has none, and gets no proper one. -/
def shapes : Item Shape → List Shape
  | .absent => []
  | .atom text => [.word text]
  | .int value => [.word (Text.integer value.toInt)]
  | .group items => [.group (listShapes items)]
  | .bracket items => [.bracket (listShapes items)]
  | .tree shape => [shape]
  | .literal _ => [.word []]

def listShapes : List (Item Shape) → List Shape
  | [] => []
  | item :: rest => shapes item ++ listShapes rest

end

theorem listShapes_eq_flatMap (items : List (Item Shape)) :
    listShapes items = items.flatMap shapes := by
  induction items with
  | nil => rfl
  | cons item rest ih => rw [listShapes, ih, List.flatMap_cons]

@[simp] theorem listShapes_trees (shapes : List Shape) : listShapes (shapes.map .tree) = shapes := by
  induction shapes with
  | nil => rfl
  | cons shape rest ih => simp [listShapes, Item.shapes, ih]

theorem listShapes_append (firsts seconds : List (Item Shape)) :
    listShapes (firsts ++ seconds) = listShapes firsts ++ listShapes seconds := by
  simp only [listShapes_eq_flatMap, List.flatMap_append]

theorem listShapes_groups (contents : α → List (Item Shape)) (elements : List α) :
    listShapes (elements.map (fun element => .group (contents element))) =
      elements.map (fun element => .group (listShapes (contents element))) := by
  induction elements with
  | nil => rfl
  | cons element rest ih => simp [listShapes, shapes, ih]

theorem shapes_word (name : String) : (word name : Item Shape).shapes = [.word name.toList] := rfl

theorem shapes_ofOption (subtree : Option Shape) : (ofOption subtree).shapes = subtree.toList := by
  cases subtree <;> rfl

theorem shapes_clause (keyword : String) (subtree : Option Shape) :
    (clause keyword subtree).shapes =
      subtree.toList.map (fun shape => .group [.word keyword.toList, shape]) := by
  cases subtree <;> rfl

theorem shapes_clause_some (keyword : String) (shape : Shape) :
    (clause keyword (some shape)).shapes = [.group [.word keyword.toList, shape]] := rfl

theorem shapes_listClause (keyword : String) (subtrees : List Shape) :
    (listClause keyword subtrees).shapes =
      if subtrees = [] then [] else [.group [.word keyword.toList, .bracket subtrees]] := by
  cases subtrees with
  | nil => rfl
  | cons first rest => simp [listClause, shapes, listShapes, word, listShapes_trees]

theorem shapes_name (written : String → String) (name : Option String) :
    ((name.map (fun name => word (written name))).getD .absent : Item Shape).shapes =
      name.toList.map (fun name => .word (written name).toList) := by
  cases name <;> rfl

theorem isLeadingSpace_of_proper {item : Item Shape}
    (proper : ∀ shape ∈ item.shapes, shape.Proper) : item.isLeadingSpace = false := by
  cases item with
  | atom text =>
      cases proper (.word text) (List.mem_singleton_self _) with
      | word readable =>
          unfold isLeadingSpace
          split
          · rename_i space
            cases space
            exact absurd (readable.plain ' ' (List.mem_singleton_self _)) (by decide)
          · rfl
  | _ => rfl

/-- An item whose shapes are proper is written as something just when it has a shape. -/
theorem isEmpty_text_of_proper {item : Item Shape}
    (proper : ∀ shape ∈ item.shapes, shape.Proper) :
    item.shapes = [] ∨ ∃ shape, item.shapes = [shape] ∧ shape.text.isEmpty = false := by
  have single (shape : Shape) (equal : item.shapes = [shape]) :
      ∃ shape, item.shapes = [shape] ∧ shape.text.isEmpty = false := by
    obtain ⟨char, rest, text, -⟩ := (proper shape (by rw [equal]; simp)).text_eq_cons
    exact ⟨shape, equal, by rw [text]; rfl⟩
  cases item with
  | absent => exact .inl rfl
  | _ => exact .inr (single _ rfl)

mutual

theorem text_of_proper (item : Item Shape) (proper : ∀ shape ∈ item.shapes, shape.Proper) :
    text (fun shape => .ok shape.text) item = .ok (item.shapes.flatMap Shape.text) := by
  cases item with
  | group items =>
      cases proper _ (List.mem_singleton_self _) with
      | group parts =>
          rw [text, texts_of_proper items parts]
          simp [shapes, Shape.text, Shape.texts_eq_map, bind, Except.bind, pure, Except.pure]
  | bracket items =>
      cases proper _ (List.mem_singleton_self _) with
      | bracket parts =>
          rw [text, texts_of_proper items parts]
          simp [shapes, Shape.text, Shape.texts_eq_map, bind, Except.bind, pure, Except.pure]
  | literal value =>
      cases proper _ (List.mem_singleton_self _) with
      | word readable => exact absurd rfl readable.nonempty
  | _ => simp [text, shapes, Shape.text]

theorem texts_of_proper (items : List (Item Shape))
    (proper : ∀ shape ∈ listShapes items, shape.Proper) :
    texts (fun shape => .ok shape.text) items = .ok ((listShapes items).map Shape.text) := by
  cases items with
  | nil => rfl
  | cons item rest =>
      simp only [listShapes, List.forall_mem_append] at proper
      simp only [texts, isLeadingSpace_of_proper proper.1, text_of_proper item proper.1,
        texts_of_proper rest proper.2, Bool.false_eq_true, if_false, bind, Except.bind, pure,
        Except.pure, listShapes]
      rcases isEmpty_text_of_proper proper.1 with none | ⟨shape, one, written⟩
      · simp [none]
      · simp [one, written]

end

theorem list_of_proper {items : List (Item Shape)} (nonempty : items ≠ [])
    (proper : (Shape.group (listShapes items)).Proper) :
    list (fun shape => .ok shape.text) items = .ok (Shape.group (listShapes items)).text := by
  have written := text_of_proper (.group items) (by simpa [shapes] using proper)
  cases items with
  | nil => exact absurd rfl nonempty
  | cons item rest =>
      cases proper with
      | group parts =>
          have itemProper : ∀ shape ∈ item.shapes, shape.Proper :=
            fun shape member => parts shape (List.mem_append_left _ member)
          have first := isLeadingSpace_of_proper itemProper
          simpa [list, first, shapes] using written

end Item

namespace Form

theorem declarations_map (f : α → β) (declared : List Variable) :
    (items.declarations declared : Item α).map f = items.declarations declared := by
  cases declared with
  | nil => rfl
  | cons reference rest => simp [items.declarations, Item.map]

theorem arm_map (f : α → β) (arm : SwitchCase α) :
    (arm.map f).items = arm.items.map (Item.map f) := by
  cases next : arm.next <;> simp [SwitchCase.items, SwitchCase.map, next, Item.map]

theorem items_map (f : α → β) (form : Form α) :
    (form.map f).items = form.items.map (Item.map f) := by
  cases form with
  | branch jump => rfl
  | proto prototype => simp [map, items, Item.name_map]
  | func function =>
      have named := Item.name_map f (fun name => name) function.name
      simpa [map, items] using named.symm
  | block sequence => simp [map, items, declarations_map]
  | prog sequence => simp [map, items, declarations_map]
  | switch choice => simp [map, items, arm_map]
  | _ => simp [map, items]

theorem canonical_map (f : α → β) (write : β → Except UnprintableLiteral (List Char))
    (form : Form α) :
    (form.map f).canonical write = form.canonical (fun child => write (f child)) := by
  have listed := Item.list_map f write form.items
  rw [← items_map] at listed
  cases form with
  | value literal => rfl
  | var reference => rfl
  | spread inner => rfl
  | _ => exact listed

end Form
end SyntaxTree
