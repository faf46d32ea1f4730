import SyntaxTree.Proofs.FormShapes

/-!
# Kinds show in shapes

The kind of a form can be told from its shape, programs being blocks: a word is a value or a
variable by how it begins, and a list is what its first word says. Clauses are of no kind, so none
of them is taken for a tree.
-/

namespace SyntaxTree

variable {α : Type}

/-- The word begins as a number does, or is one of those that stand for values. -/
def Text.isValueWord (word : List Char) : Bool :=
  (valueWords.map String.toList).contains word ||
    word.head?.any (fun char => char.isDigit || char == '-')

/-- The words that begin lists and belong to one kind each. -/
def treeKeywords : List (String × Kind) :=
  [(",", .tuple), ("call", .call), (".", .index), ("loop", .loop), ("if", .cond),
    ("break", .branch), ("continue", .branch), ("redo", .branch), ("import", .imports),
    ("proto", .proto), ("return", .returns), ("switch", .switch), ("block", .block),
    ("function", .func), ("format", .format), ("object", .object), ("for", .forEach)]

/-- The kind of trees whose list begins with a word. -/
def headKind? (head : List Char) : Option Kind :=
  match treeKeywords.find? (fun entry => entry.1.toList == head) with
  | some entry => some entry.2
  | none =>
      if head.getLast? = some '=' then some .assign
      else if head.all Text.isSymbolChar then some .op
      else none

/-- The kind of the tree that a shape is of. Clauses and what else is no tree have none. -/
def Shape.kind? : Shape → Option Kind
  | .word text =>
      if Text.isValueWord text then some .value
      else if text.head? = some '.' then none
      else some .var
  | .quoted _ => some .value
  | .spread _ => some .spread
  | .group (.word head :: _) => headKind? head
  | _ => none

theorem Literal.kind?_shape (literal : Literal) : literal.shape.kind? = some .value := by
  have shaped (known : Text.isValueWord literal.canonical = true) :
      literal.shape.kind? = some .value := by
    cases literal with
    | text value => rfl
    | _ => simp only [shape, Shape.kind?, known, if_true]
  rcases literal.word_cases with ⟨value, rfl⟩ | known | infinite | ⟨numeral, scans⟩
  · rfl
  · exact shaped (by simp [Text.isValueWord, known])
  · exact shaped (by rw [infinite]; decide)
  · obtain ⟨digit, rest, isDigit, begins⟩ := scans.head
    refine shaped ?_
    rcases begins with text | text <;> simp [Text.isValueWord, text, isDigit]

theorem Variable.kind?_canonical {reference : Variable}
    (named : Text.Identifier reference.name) :
    (Shape.word reference.canonical).kind? = some .var := by
  obtain ⟨first, rest, spelled⟩ := List.exists_cons_of_ne_nil (Text.toList_ne_nil named.nonempty)
  have nameChar := named.chars first (by rw [spelled]; exact List.mem_cons_self)
  have notDigit := named.start first (by rw [spelled]; rfl)
  have notMinus : first ≠ '-' := by
    rintro rfl
    cases nameChar
  have notDot : first ≠ '.' := by
    rintro rfl
    cases nameChar
  have begins : reference.canonical.head? = some first := by simp [canonical, spelled]
  have unmarked : ∀ name ∈ Text.valueWords.map String.toList, '!' ∉ name := by decide
  have free : reference.canonical ∉ Text.valueWords.map String.toList := by
    intro known
    have plain : reference.isMutable = false := by
      cases marked : reference.isMutable with
      | false => rfl
      | true => exact absurd (by simp [canonical, marked]) (unmarked _ known)
    rw [canonical, plain] at known
    simp only [Bool.false_eq_true, if_false, List.append_nil] at known
    obtain ⟨name, taken, equal⟩ := List.mem_map.mp known
    exact named.free (String.toList_injective equal ▸ taken)
  have noValue : Text.isValueWord reference.canonical = false := by
    have known : (Text.valueWords.map String.toList).contains reference.canonical = false := by
      rw [List.contains_eq_mem]
      exact decide_eq_false free
    simp only [Text.isValueWord, known, begins, Option.any_some, notDigit, Bool.false_or,
      beq_eq_false_iff_ne]
    exact notMinus
  simp only [Shape.kind?, noValue, begins, Option.some.injEq, notDot, Bool.false_eq_true, if_false]

theorem headKind?_assign (operator : List Char) : headKind? (operator ++ ['=']) = some .assign := by
  have table : ∀ entry ∈ treeKeywords, entry.1.toList.getLast? ≠ some '=' := by decide
  have absent : treeKeywords.find? (fun entry => entry.1.toList == operator ++ ['=']) = none := by
    rw [List.find?_eq_none]
    intro entry member equal
    refine table entry member ?_
    rw [eq_of_beq equal, List.getLast?_concat]
  simp [headKind?, absent]

theorem headKind?_symbolic {tag : String} (symbolic : Text.Symbolic tag) :
    headKind? tag.toList = some .op := by
  have table : ∀ entry ∈ treeKeywords, entry.1.toList.all Text.isSymbolChar = false := by decide
  have symbols : tag.toList.all Text.isSymbolChar = true := List.all_eq_true.mpr symbolic.chars
  have absent : treeKeywords.find? (fun entry => entry.1.toList == tag.toList) = none := by
    rw [List.find?_eq_none]
    intro entry member equal
    have mixed := table entry member
    rw [eq_of_beq equal, symbols] at mixed
    cases mixed
  have notEquals : tag.toList.getLast? ≠ some '=' := fun last =>
    absurd (symbolic.chars '=' (List.mem_of_getLast? last)) (by decide)
  simp [headKind?, absent, notEquals, symbols]

/-- A program is written as the block of its elements. -/
def Form.progAsBlock : Form α → Form α
  | .prog sequence => .block sequence
  | form => form

theorem Form.kind?_shape {form : Form Shape} (named : form.Named) :
    form.shape.kind? = some form.progAsBlock.kind := by
  cases form with
  | value literal => exact literal.kind?_shape
  | var reference => exact Variable.kind?_canonical named
  | assign assignment =>
      change headKind? (assignment.operator.getD "" ++ "=").toList = some .assign
      rw [String.toList_append]
      exact headKind?_assign _
  | op operation => exact headKind?_symbolic named
  | branch jump =>
      obtain ⟨kind, level⟩ := jump
      cases kind <;> rfl
  | _ => rfl

end SyntaxTree
