import SyntaxTree.Proofs.ItemShapes
import SyntaxTree.Proofs.Words

/-!
# The shapes of forms

A form over shapes has a shape, and when its names are names and its operators are made of symbols
the shape is proper and its text is the canonical form.
-/

namespace SyntaxTree

variable {α β : Type}

/-! ### Literals and variables -/

def Literal.shape : Literal → Shape
  | .text value => .quoted value
  | literal => .word literal.canonical

theorem Literal.text_shape (literal : Literal) : literal.shape.text = literal.canonical := by
  cases literal <;> rfl

/-- The word of a number begins as a number does, and the others are few. -/
theorem Literal.word_cases (literal : Literal) :
    (∃ value, literal = .text value) ∨ literal.canonical ∈ Text.valueWords.map String.toList ∨
      literal.canonical = ['-', 'i', 'n', 'f'] ∨
      ∃ numeral, Json.Scans literal.canonical numeral := by
  cases literal with
  | sentinel => exact .inr (.inl (by decide))
  | bool value => cases value <;> exact .inr (.inl (by decide))
  | int value => exact .inr (.inr (.inr ⟨_, Json.scans_integer value.toInt⟩))
  | text value => exact .inl ⟨value, rfl⟩
  | real value =>
      cases finite : value.isFinite with
      | true =>
          simp only [canonical, finite, if_true]
          exact .inr (.inr (.inr ⟨_, Json.scans_real canonicalReal value⟩))
      | false =>
          simp only [canonical, finite, Bool.false_eq_true, if_false, Binary64.nonFiniteName]
          cases value.isNaN <;> cases value.negative
          · exact .inr (.inl (by decide))
          · exact .inr (.inr (.inl rfl))
          · exact .inr (.inl (by decide))
          · exact .inr (.inl (by decide))

theorem Literal.proper_shape (literal : Literal) : literal.shape.Proper := by
  have table : ∀ name ∈ Text.valueWords.map String.toList, Shape.Readable name := by decide
  have shaped (word : Shape.Readable literal.canonical) : literal.shape.Proper := by
    cases literal with
    | text value => exact .quoted value
    | _ => exact .word word
  rcases literal.word_cases with ⟨value, rfl⟩ | known | infinite | ⟨numeral, scans⟩
  · exact .quoted value
  · exact shaped (table _ known)
  · exact shaped (by rw [infinite]; decide)
  · exact shaped scans.readable

theorem Variable.readable {reference : Variable} (named : Text.Identifier reference.name) :
    Shape.Readable reference.canonical := by
  refine Text.readable_of_wordChars ?_ ?_
  · simp [canonical, Text.toList_ne_nil named.nonempty]
  · rw [canonical, List.forall_mem_append]
    refine ⟨named.wordChars, List.all_eq_true.mp ?_⟩
    cases reference.isMutable <;> decide

namespace Form

/--
The names of the form are identifiers and its operators are made of symbols, those of cases of
either.
-/
def Named : Form α → Prop
  | .var reference => Text.Identifier reference.name
  | .assign assignment => ∀ operator, assignment.operator = some operator → Text.Symbolic operator
  | .op operation => Text.Symbolic operation.tag
  | .imports name => Text.Identifier name
  | .proto prototype => ∀ name, prototype.name = some name → Text.Identifier name
  | .switch choice => ∀ arm ∈ choice.cases, Text.CaseOperator arm.operator
  | .block sequence | .prog sequence =>
      ∀ reference ∈ sequence.declared, Text.Identifier reference.name
  | .func function => ∀ name, function.name = some name → Text.Identifier name
  | _ => True

theorem named_map (f : α → β) (form : Form α) : (form.map f).Named ↔ form.Named := by
  cases form with
  | switch choice => simp [map, Named, SwitchCase.map]
  | _ => rfl

def shape : Form Shape → Shape
  | .value literal => literal.shape
  | .var reference => .word reference.canonical
  | .spread inner => .spread inner
  | form => .group (Item.listShapes form.items)

end Form

/-! ### Proper shapes -/

namespace Item

def Proper (item : Item Shape) : Prop := ∀ shape ∈ item.shapes, shape.Proper

theorem proper_listShapes {items : List (Item Shape)} (proper : ∀ item ∈ items, item.Proper) :
    ∀ shape ∈ listShapes items, shape.Proper := by
  intro shape member
  rw [listShapes_eq_flatMap, List.mem_flatMap] at member
  obtain ⟨item, inside, member⟩ := member
  exact proper item inside shape member

theorem Proper.absent : (absent : Item Shape).Proper := nofun

theorem Proper.word {name : String} (readable : Shape.Readable name.toList) :
    (word name : Item Shape).Proper := by
  rintro shape (_ | ⟨_, ⟨⟩⟩)
  exact .word readable

theorem Proper.int (value : Int64) : (int value : Item Shape).Proper := by
  rintro shape (_ | ⟨_, ⟨⟩⟩)
  exact .word (Json.scans_integer value.toInt).readable

theorem Proper.tree {shape : Shape} (proper : shape.Proper) : (tree shape).Proper := by
  rintro other (_ | ⟨_, ⟨⟩⟩)
  exact proper

theorem Proper.group {items : List (Item Shape)} (proper : ∀ item ∈ items, item.Proper) :
    (group items).Proper := by
  rintro other (_ | ⟨_, ⟨⟩⟩)
  exact .group (proper_listShapes proper)

theorem Proper.bracket {shapes : List Shape} (proper : ∀ shape ∈ shapes, shape.Proper) :
    (bracket (shapes.map .tree)).Proper := by
  rintro other (_ | ⟨_, ⟨⟩⟩)
  exact .bracket (by simpa using proper)

theorem proper_trees {shapes : List Shape} (proper : ∀ shape ∈ shapes, shape.Proper) :
    ∀ item ∈ shapes.map tree, item.Proper := by
  rw [List.forall_mem_map]
  exact fun shape member => .tree (proper shape member)

theorem Proper.ofOption {subtree : Option Shape} (proper : ∀ shape, subtree = some shape → shape.Proper) :
    (ofOption subtree).Proper := by
  cases subtree with
  | none => exact .absent
  | some shape => exact .tree (proper shape rfl)

theorem Proper.clause {keyword : String} (readable : Shape.Readable keyword.toList)
    {subtree : Option Shape} (proper : ∀ shape, subtree = some shape → shape.Proper) :
    (clause keyword subtree).Proper := by
  cases subtree with
  | none => exact .absent
  | some shape =>
      refine .group ?_
      rw [List.forall_mem_cons, List.forall_mem_singleton]
      exact ⟨.word readable, .tree (proper shape rfl)⟩

theorem Proper.listClause {keyword : String} (readable : Shape.Readable keyword.toList)
    {subtrees : List Shape} (proper : ∀ shape ∈ subtrees, shape.Proper) :
    (listClause keyword subtrees).Proper := by
  cases subtrees with
  | nil => exact .absent
  | cons first rest =>
      refine .group ?_
      rw [List.forall_mem_cons, List.forall_mem_singleton]
      exact ⟨.word readable, .bracket proper⟩

theorem Proper.name {written : String → String} {name : Option String}
    (readable : ∀ given, name = some given → Shape.Readable (written given).toList) :
    ((name.map (fun name => Item.word (written name))).getD .absent : Item Shape).Proper := by
  cases name with
  | none => exact .absent
  | some given => exact .word (readable given rfl)

theorem Proper.declarations {declared : List Variable}
    (named : ∀ reference ∈ declared, Text.Identifier reference.name) :
    (Form.items.declarations declared : Item Shape).Proper := by
  cases declared with
  | nil => exact .absent
  | cons first rest =>
      refine .group ?_
      rw [List.forall_mem_cons, List.forall_mem_map]
      refine ⟨.word (by decide), fun reference member => ?_⟩
      rintro shape (_ | ⟨_, ⟨⟩⟩)
      exact .word (Variable.readable (named reference member))

theorem Proper.arm {arm : SwitchCase Shape} (operator : Text.CaseOperator arm.operator)
    (proper : ∀ child ∈ arm.children, child.Proper) : (Item.group arm.items).Proper := by
  simp only [SwitchCase.children, List.forall_mem_append, Option.mem_toList,
    List.forall_mem_singleton] at proper
  refine .group ?_
  simp only [SwitchCase.items, List.forall_mem_cons, List.not_mem_nil, false_implies,
    implies_true, and_true]
  refine ⟨.word (by decide), .word operator.readable, .ofOption proper.1, .tree proper.2, ?_⟩
  split
  · exact .word (by decide)
  · exact .absent

end Item

namespace Form

theorem proper_items {form : Form Shape} (named : form.Named)
    (proper : ∀ child ∈ form.children, child.Proper) : ∀ item ∈ form.items, item.Proper := by
  cases form <;> simp only [children, items, List.forall_mem_cons, List.forall_mem_append,
    List.not_mem_nil, Option.mem_toList, false_implies, implies_true, and_true] at proper ⊢
  case assign assignment =>
    refine ⟨.word ?_, .tree proper.1, .tree proper.2⟩
    cases operator : assignment.operator with
    | none => decide
    | some symbols =>
        have symbolic : Text.Symbolic symbols := named symbols operator
        refine Text.readable_of_wordChars (by simp) ?_
        simp only [Option.getD_some, String.toList_append, List.forall_mem_append]
        exact ⟨symbolic.wordChars, List.all_eq_true.mp (by decide)⟩
  case tuple elements => exact ⟨.word (by decide), Item.proper_trees proper⟩
  case call call =>
    exact ⟨.word (by decide), .tree proper.1, Item.proper_trees proper.2⟩
  case index indexing => exact ⟨.word (by decide), .tree proper.1, .bracket proper.2⟩
  case loop repetition =>
    exact ⟨.word (by decide), .tree proper.1, .clause (by decide) proper.2⟩
  case cond conditional =>
    exact ⟨.word (by decide), .ofOption proper.1.1, .clause (by decide) proper.1.2,
      .clause (by decide) proper.2⟩
  case branch jump =>
    have table : ∀ kind : BranchKind, Shape.Readable kind.name.toList := by
      intro kind
      cases kind <;> decide
    exact ⟨.word (table jump.kind), .int jump.level⟩
  case op operation => exact ⟨.word named.readable, Item.proper_trees proper⟩
  case imports name => exact ⟨.word (by decide), .word named.readable⟩
  case proto prototype =>
    refine ⟨.word (by decide), .name (fun name given => ?_), .clause (by decide) proper.1.1.1,
      .listClause (by decide) proper.1.1.2, .listClause (by decide) proper.1.2,
      .listClause (by decide) proper.2⟩
    have identifier : Text.Identifier name := named name given
    refine Text.readable_of_wordChars (by simp) ?_
    simp only [String.toList_append, List.forall_mem_append]
    exact ⟨List.all_eq_true.mp (by decide), identifier.wordChars⟩
  case returns inner => exact ⟨.word (by decide), .tree proper⟩
  case switch choice =>
    refine ⟨.word (by decide), .tree proper.1, ?_, .clause (by decide) proper.2.1.1.2,
      .clause (by decide) proper.2.1.2, .clause (by decide) proper.2.2⟩
    rw [List.forall_mem_map]
    exact fun arm member => .arm (named arm member)
      (fun child inside => proper.2.1.1.1 child (List.mem_flatMap.mpr ⟨arm, member, inside⟩))
  case block sequence => exact ⟨.word (by decide), .declarations named, Item.proper_trees proper⟩
  case prog sequence => exact ⟨.word (by decide), .declarations named, Item.proper_trees proper⟩
  case func function =>
    exact ⟨.word (by decide), .name (fun name given => (named name given).readable),
      .bracket proper.1, .tree proper.2⟩
  case format parts => exact ⟨.word (by decide), Item.proper_trees proper⟩
  case object pairs =>
    refine ⟨.word (by decide), ?_⟩
    rw [List.forall_mem_map]
    intro pair member
    have inside (child : Shape) (either : child ∈ [pair.1, pair.2]) : child.Proper :=
      proper child (List.mem_flatMap.mpr ⟨pair, member, either⟩)
    refine .group ?_
    simp only [List.forall_mem_cons, List.not_mem_nil, false_implies, implies_true, and_true]
      at inside ⊢
    exact ⟨.word (by decide), .tree inside.1, .tree inside.2⟩
  case forEach iteration =>
    obtain ⟨target, source, body, consequent, otherwise⟩ := proper
    refine ⟨.word (by decide), .clause (by decide) ?_, .clause (by decide) ?_,
      .clause (by decide) ?_, .clause (by decide) consequent, .clause (by decide) otherwise⟩
    · rintro _ ⟨⟩
      exact target
    · rintro _ ⟨⟩
      exact source
    · rintro _ ⟨⟩
      exact body

theorem proper_shape {form : Form Shape} (named : form.Named)
    (proper : ∀ child ∈ form.children, child.Proper) : form.shape.Proper := by
  have listed : (Shape.group (Item.listShapes form.items)).Proper :=
    .group (Item.proper_listShapes (proper_items named proper))
  cases form with
  | value literal => exact literal.proper_shape
  | var reference => exact .word (Variable.readable named)
  | spread inner => exact .spread (proper inner (List.mem_singleton_self inner))
  | _ => exact listed

theorem canonical_eq_shape {form : Form Shape} (proper : form.shape.Proper) :
    form.canonical (fun shape => .ok shape.text) = .ok form.shape.text := by
  have listed (nonempty : form.items ≠ []) := Item.list_of_proper nonempty
  cases form with
  | value literal => exact congrArg Except.ok literal.text_shape.symm
  | var reference => rfl
  | spread inner => rfl
  | _ => exact listed (by simp [items]) proper

end Form
end SyntaxTree
