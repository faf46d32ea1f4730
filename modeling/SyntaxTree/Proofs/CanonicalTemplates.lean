import SyntaxTree.CanonicalForm
import SyntaxTree.Proofs.Templates

/-!
# Templates of canonical forms

The canonical form of a form is a template with its children in the places. Which items leave a
separator behind must not depend on the children, so this is stated for children that are written
as something.
-/

namespace SyntaxTree

open Template (contents contents_append contents_intercalate contents_ofText fill fill_append
  fill_eq_nil_iff fill_intercalate fill_ofText ofText)

variable {α : Type}

namespace Item

mutual

/-- The subtrees of an item in the order in which they are written. -/
def subtrees : Item α → List α
  | .group items | .bracket items => listSubtrees items
  | .tree subtree => [subtree]
  | _ => []

def listSubtrees : List (Item α) → List α
  | [] => []
  | item :: rest => subtrees item ++ listSubtrees rest

end

mutual

/-- No raw literal stands in the item. -/
def IsWritable : Item α → Prop
  | .group items | .bracket items => AreWritable items
  | .literal _ => False
  | _ => True

def AreWritable : List (Item α) → Prop
  | [] => True
  | item :: rest => IsWritable item ∧ AreWritable rest

end

mutual

def template : Item α → List (Letter α)
  | .absent | .literal _ => []
  | .atom text => ofText text
  | .int value => ofText (Text.integer value.toInt)
  | .group items => .char '(' :: (List.intercalate [.char ' '] (templates items) ++ [.char ')'])
  | .bracket items => .char '[' :: (List.intercalate [.char ' '] (templates items) ++ [.char ']'])
  | .tree subtree => [.place subtree]

/-- The templates of those items that are written as something. -/
def templates : List (Item α) → List (List (Letter α))
  | [] => []
  | item :: rest =>
      if item.isLeadingSpace || (template item).isEmpty then
        templates rest
      else
        template item :: templates rest

end

theorem listSubtrees_eq_flatMap (items : List (Item α)) :
    listSubtrees items = items.flatMap subtrees := by
  induction items with
  | nil => rfl
  | cons item rest ih => rw [listSubtrees, ih, List.flatMap_cons]

theorem areWritable_iff {items : List (Item α)} :
    AreWritable items ↔ ∀ item ∈ items, item.IsWritable := by
  induction items with
  | nil => simp [AreWritable]
  | cons item rest ih => simp [AreWritable, ih]

theorem subtrees_of_isLeadingSpace {item : Item α} (space : item.isLeadingSpace = true) :
    item.subtrees = [] := by
  cases item with
  | atom text => rfl
  | _ => cases space

mutual

theorem contents_template (item : Item α) : contents item.template = item.subtrees := by
  cases item with
  | group items =>
      simp [template, subtrees, contents, contents_intercalate, contents_templates items]
  | bracket items =>
      simp [template, subtrees, contents, contents_intercalate, contents_templates items]
  | _ => simp [template, subtrees, contents]

theorem contents_templates (items : List (Item α)) :
    (templates items).flatMap contents = listSubtrees items := by
  cases items with
  | nil => rfl
  | cons item rest =>
      have first := contents_template item
      have others := contents_templates rest
      rw [templates, listSubtrees]
      split
      · rename_i dropped
        have none : item.subtrees = [] := by
          rcases (Bool.or_eq_true ..).mp dropped with space | empty
          · exact subtrees_of_isLeadingSpace space
          · rw [← first, List.isEmpty_iff.mp empty]
            rfl
        rw [none, others]
        rfl
      · rw [List.flatMap_cons, first, others]

end

section Fill

variable {write : α → Except UnprintableLiteral (List Char)} {text : α → List Char}

mutual

theorem text_eq_fill (item : Item α) (writable : item.IsWritable)
    (written : ∀ child ∈ item.subtrees, write child = .ok (text child) ∧ text child ≠ []) :
    item.text write = .ok (fill text item.template) := by
  cases item with
  | group items =>
      rw [Item.text, texts_eq_fill items writable written]
      simp [template, fill, fill_intercalate, bind, Except.bind, pure, Except.pure]
  | bracket items =>
      rw [Item.text, texts_eq_fill items writable written]
      simp [template, fill, fill_intercalate, bind, Except.bind, pure, Except.pure]
  | tree child =>
      have here := (written child (List.mem_singleton_self child)).1
      simpa [Item.text, template, fill] using here
  | literal value => exact writable.elim
  | _ => simp [Item.text, template, fill]

theorem texts_eq_fill (items : List (Item α)) (writable : AreWritable items)
    (written : ∀ child ∈ listSubtrees items, write child = .ok (text child) ∧ text child ≠ []) :
    texts write items = .ok ((templates items).map (fill text)) := by
  cases items with
  | nil => rfl
  | cons item rest =>
      simp only [listSubtrees, List.forall_mem_append] at written
      have first := text_eq_fill item writable.1 written.1
      have others := texts_eq_fill rest writable.2 written.2
      have vanishes : (fill text item.template).isEmpty = item.template.isEmpty := by
        rw [Bool.eq_iff_iff, List.isEmpty_iff, List.isEmpty_iff]
        apply fill_eq_nil_iff
        intro child member
        rw [contents_template] at member
        exact (written.1 child member).2
      cases space : item.isLeadingSpace with
      | true => simp only [texts, templates, space, Bool.true_or, if_true, others]
      | false =>
          simp only [texts, templates, space, first, others, vanishes, Bool.false_or,
            Bool.false_eq_true, if_false, bind, Except.bind, pure, Except.pure]
          split <;> rfl

end

end Fill

/-! ### The items of forms -/

/-- The items hold no raw literal, and these subtrees in this order. -/
structure Hold (items : List (Item α)) (children : List α) : Prop where
  writable : AreWritable items
  subtrees : listSubtrees items = children

namespace Hold

variable {item : Item α} {items others : List (Item α)} {here rest children : List α}

theorem of_eq (held : Hold items here) (same : here = children) : Hold items children :=
  same ▸ held

theorem nil : Hold ([] : List (Item α)) [] := ⟨trivial, rfl⟩

theorem cons (first : Hold [item] here) (later : Hold items rest) :
    Hold (item :: items) (here ++ rest) := by
  constructor
  · exact ⟨first.writable.1, later.writable⟩
  · rw [listSubtrees, later.subtrees, ← first.subtrees, listSubtrees, listSubtrees,
      List.append_nil]

theorem append (first : Hold items here) (later : Hold others rest) :
    Hold (items ++ others) (here ++ rest) := by
  constructor
  · rw [areWritable_iff, List.forall_mem_append]
    exact ⟨areWritable_iff.mp first.writable, areWritable_iff.mp later.writable⟩
  · rw [listSubtrees_eq_flatMap, List.flatMap_append, ← listSubtrees_eq_flatMap,
      ← listSubtrees_eq_flatMap, first.subtrees, later.subtrees]

theorem group (held : Hold items here) : Hold [.group items] here :=
  ⟨⟨held.writable, trivial⟩, (List.append_nil _).trans held.subtrees⟩

theorem bracket (held : Hold items here) : Hold [.bracket items] here :=
  ⟨⟨held.writable, trivial⟩, (List.append_nil _).trans held.subtrees⟩

theorem absent : Hold [(.absent : Item α)] [] := ⟨⟨trivial, trivial⟩, rfl⟩

theorem atom {text : List Char} : Hold [(.atom text : Item α)] [] := ⟨⟨trivial, trivial⟩, rfl⟩

theorem int {value : Int64} : Hold [(.int value : Item α)] [] := ⟨⟨trivial, trivial⟩, rfl⟩

theorem tree {subtree : α} : Hold [.tree subtree] [subtree] := ⟨⟨trivial, trivial⟩, rfl⟩

theorem map {β : Type} {item : β → Item α} {listed : β → List α}
    (each : ∀ element, Hold [item element] (listed element)) (elements : List β) :
    Hold (elements.map item) (elements.flatMap listed) := by
  induction elements with
  | nil => exact nil
  | cons element rest ih => exact (each element).cons ih

theorem trees {subtrees : List α} : Hold (subtrees.map .tree) subtrees :=
  (map (fun _ => tree) subtrees).of_eq (by simp)

theorem name {written : String → Item α} (each : ∀ name, Hold [written name] [])
    {name : Option String} : Hold [(name.map written).getD .absent] [] := by
  cases name with
  | none => exact absent
  | some name => exact each name

theorem ofOption {subtree : Option α} : Hold [ofOption subtree] subtree.toList := by
  cases subtree with
  | none => exact absent
  | some subtree => exact tree

theorem clause {keyword : String} {subtree : Option α} :
    Hold [clause keyword subtree] subtree.toList := by
  cases subtree with
  | none => exact absent
  | some subtree => exact group (cons atom tree)

theorem listClause {keyword : String} {subtrees : List α} :
    Hold [listClause keyword subtrees] subtrees := by
  cases subtrees with
  | nil => exact absent
  | cons first rest => exact group (cons atom (bracket trees))

end Hold

/-- The template of a whole written list. -/
def listTemplate : List (Item α) → List (Letter α)
  | [] => []
  | first :: rest =>
      if first.isLeadingSpace then
        .char ' ' :: template (.group rest)
      else
        template (.group (first :: rest))

theorem contents_listTemplate (items : List (Item α)) :
    contents (listTemplate items) = listSubtrees items := by
  cases items with
  | nil => rfl
  | cons first rest =>
      rw [listTemplate]
      split
      · rename_i space
        rw [contents, contents_template, listSubtrees, subtrees_of_isLeadingSpace space]
        rfl
      · rw [contents_template]
        rfl

theorem list_eq_fill {write : α → Except UnprintableLiteral (List Char)} {text : α → List Char}
    {items : List (Item α)} {children : List α} (held : Hold items children)
    (written : ∀ child ∈ children, write child = .ok (text child) ∧ text child ≠ []) :
    list write items = .ok (fill text (listTemplate items)) := by
  cases items with
  | nil => rfl
  | cons first rest =>
      obtain ⟨writable, rfl⟩ := held
      rw [list, listTemplate]
      split
      · rename_i space
        have others := text_eq_fill (.group rest) writable.2
          (fun child member => written child (List.mem_append_right _ member))
        rw [others]
        rfl
      · exact text_eq_fill (.group (first :: rest)) writable written

end Item

namespace Form

open Item (Hold subtrees)

theorem declarations_hold {declared : List Variable} :
    Hold [(items.declarations declared : Item α)] [] := by
  cases declared with
  | nil => exact .absent
  | cons first rest =>
      have names : Hold
          ((first :: rest).map (fun reference => (.atom reference.canonical : Item α))) [] :=
        (Hold.map (fun _ => .atom) _).of_eq (by simp)
      exact (Hold.cons .atom names).group

theorem arm_holds (arm : SwitchCase α) : Hold [.group arm.items] arm.children := by
  obtain ⟨token, operator, comparand, body, next⟩ := arm
  have link : Hold [if next.isSome then (.word "..." : Item α) else .absent] [] := by
    split
    · exact .atom
    · exact .absent
  exact (Hold.cons .atom (.cons .atom (.cons .ofOption (.cons .tree link)))).group

/-- The subtrees of the items are the children, in their order. -/
theorem items_hold {form : Form α} (listed : form.items ≠ []) :
    Hold form.items form.children := by
  cases form with
  | value literal => exact absurd rfl listed
  | var reference => exact absurd rfl listed
  | spread inner => exact absurd rfl listed
  | imports name => exact Hold.cons .atom .atom
  | branch jump => exact Hold.cons .atom .int
  | tuple elements => exact Hold.cons .atom .trees
  | op operation => exact Hold.cons .atom .trees
  | format parts => exact Hold.cons .atom .trees
  | assign assignment => exact Hold.cons .atom (.cons .tree .tree)
  | returns inner => exact Hold.cons .atom .tree
  | call call => exact Hold.cons .atom (.cons .tree .trees)
  | index indexing => exact Hold.cons .atom (.cons .tree (.bracket .trees))
  | loop repetition => exact Hold.cons .atom (.cons .tree .clause)
  | cond conditional =>
      exact (Hold.cons .atom (.cons .ofOption (.cons .clause .clause))).of_eq (by simp [children])
  | proto prototype =>
      have groups {publics privates statics : List α} :
          Hold [.listClause "public" publics, .listClause "private" privates,
            .listClause "static" statics] (publics ++ (privates ++ statics)) :=
        .cons .listClause (.cons .listClause .listClause)
      exact (Hold.cons .atom (.cons (.name (fun _ => .atom)) (.cons .clause groups))).of_eq
        (by simp [children])
  | switch choice =>
      have clauses : Hold [.clause "default" choice.fallback, .clause "then" choice.consequent,
          .clause "else" choice.otherwise]
          (choice.fallback.toList ++ (choice.consequent.toList ++ choice.otherwise.toList)) :=
        .cons .clause (.cons .clause .clause)
      exact (Hold.cons .atom (.cons .tree (.append (.map arm_holds choice.cases) clauses))).of_eq
        (by simp [children])
  | block sequence => exact Hold.cons .atom (.cons declarations_hold .trees)
  | prog sequence => exact Hold.cons .atom (.cons declarations_hold .trees)
  | func function =>
      exact (Hold.cons .atom (.cons (.name (fun _ => .atom)) (.cons (.bracket .trees) .tree))).of_eq
        rfl
  | object pairs =>
      exact Hold.cons .atom (.map (fun _ => (Hold.cons .atom (.cons .tree .tree)).group) pairs)
  | forEach iteration =>
      exact Hold.cons .atom (.cons .clause (.cons .clause (.cons .clause (.cons .clause .clause))))

/-- The template of the canonical form. -/
def template : Form α → List (Letter α)
  | .value literal => ofText literal.canonical
  | .var reference => ofText reference.canonical
  | .spread inner => [.char '.', .char '.', .char '.', .place inner]
  | form => Item.listTemplate form.items

theorem contents_template (form : Form α) : contents form.template = form.children := by
  have listed (some_items : form.items ≠ []) :
      contents (Item.listTemplate form.items) = form.children :=
    (Item.contents_listTemplate form.items).trans (items_hold some_items).subtrees
  cases form with
  | value literal => exact contents_ofText _
  | var reference => exact contents_ofText _
  | spread inner => rfl
  | _ => exact listed (List.cons_ne_nil _ _)

theorem canonical_eq_fill {write : α → Except UnprintableLiteral (List Char)}
    {text : α → List Char} {form : Form α}
    (written : ∀ child ∈ form.children, write child = .ok (text child) ∧ text child ≠ []) :
    form.canonical write = .ok (fill text form.template) := by
  have listed (some_items : form.items ≠ []) :
      Item.list write form.items = .ok (fill text (Item.listTemplate form.items)) :=
    Item.list_eq_fill (items_hold some_items) written
  cases form with
  | value literal => exact congrArg Except.ok (fill_ofText text _).symm
  | var reference => exact congrArg Except.ok (fill_ofText text _).symm
  | spread inner =>
      have here := (written inner (List.mem_singleton_self inner)).1
      simp [canonical, template, fill, here, bind, Except.bind, pure, Except.pure]
  | _ => exact listed (List.cons_ne_nil _ _)

end Form
end SyntaxTree
