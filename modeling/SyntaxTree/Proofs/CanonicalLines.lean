import SyntaxTree.Proofs.NestedLines
import SyntaxTree.Proofs.QuotedText
import SyntaxTree.Proofs.WrittenNames

/-!
# Canonical forms are lines

The canonical form of a tree is one line of nested lists whatever the texts of its literals hold,
since those are quoted. Names and operators are written as they stand, so they must hold nothing
that means something to the scan of a line.
-/

namespace SyntaxTree

open Line (Scan Solid isInert isVisible)
open Template (fill fill_append fill_intercalate fill_ofText)

variable {α : Type}

/-! ### Words and quoted texts -/

namespace Text

theorem isUnprintable_of_not_isVisible {char : Char} (hidden : isVisible char = false) :
    isUnprintable char = true := by
  have outside : char.toNat < 0x20 ∨ char.toNat = 0x7f := by
    simp only [isVisible, decide_eq_false_iff_not] at hidden
    omega
  rcases outside with control | delete
  · exact List.any_eq_true.mpr ⟨(0x0, 0x1f), .head _, by simp; omega⟩
  · exact List.any_eq_true.mpr ⟨(0x7f, 0xa0), .tail _ (.head _), by simp; omega⟩

theorem plain_of_mem_toDigits (natural : Nat) :
    ∀ digit ∈ Nat.toDigits 16 natural, isVisible digit = true ∧ digit ≠ '"' ∧ digit ≠ '\\' := by
  have table : ∀ value < 16, isVisible (Nat.digitChar value) = true ∧
      Nat.digitChar value ≠ '"' ∧ Nat.digitChar value ≠ '\\' := by decide
  intro digit member
  obtain ⟨value, small, rfl⟩ := digitChar_of_mem_toDigits natural digit member
  exact table value small

/-- A character is quoted by visible characters that do not end the quoted text. -/
theorem quotedChar_passed (char : Char) :
    (∀ written ∈ quotedChar char, isVisible written = true) ∧
      ∀ opened, (Scan.quoted opened).run (quotedChar char) = some (.quoted opened) := by
  unfold quotedChar
  split
  case h_7 notNull notTab notLine notReturn notQuote notBackslash =>
      split
      · rename_i numbered
        have digits := plain_of_mem_toDigits char.toNat
        have visible : ∀ written ∈ Nat.toDigits 16 char.toNat ++ ['}'],
            isVisible written = true :=
          List.forall_mem_append.mpr
            ⟨fun digit member => (digits digit member).1, List.forall_mem_singleton.mpr rfl⟩
        have plain : ∀ written ∈ Nat.toDigits 16 char.toNat ++ ['}'],
            written ≠ '"' ∧ written ≠ '\\' :=
          List.forall_mem_append.mpr
            ⟨fun digit member => (digits digit member).2, List.forall_mem_singleton.mpr (by decide)⟩
        constructor
        · simp only [List.forall_mem_cons]
          exact ⟨rfl, rfl, rfl, visible⟩
        · intro opened
          change (Scan.quoted opened).run (Nat.toDigits 16 char.toNat ++ ['}']) = _
          exact Scan.run_quoted opened plain
      · rename_i shown
        simp only [Bool.or_eq_true, not_or, Bool.not_eq_true] at shown
        constructor
        · refine List.forall_mem_singleton.mpr (Bool.of_not_eq_false (fun hidden => ?_))
          rw [isUnprintable_of_not_isVisible hidden] at shown
          cases shown.1.1
        · exact fun opened =>
            Scan.run_quoted opened (List.forall_mem_singleton.mpr ⟨notQuote, notBackslash⟩)
  all_goals exact ⟨List.all_eq_true.mp rfl, fun _ => rfl⟩

theorem solid_quoted (text : String) : Solid (quoted text) := by
  apply Solid.quotation
  · intro written member
    obtain ⟨char, -, within⟩ := List.mem_flatMap.mp member
    exact (quotedChar_passed char).1 written within
  · intro opened
    induction text.toList with
    | nil => rfl
    | cons char rest ih =>
        rw [List.flatMap_cons, Scan.run_append, (quotedChar_passed char).2, Option.bind_some, ih]

/-- The word means nothing to the scan of a line, wherever it stands. -/
def IsInert (word : String) : Prop := ∀ char ∈ word.toList, isInert char = true

instance (word : String) : Decidable (IsInert word) :=
  decidable_of_iff (word.toList.all isInert = true) List.all_eq_true

theorem IsInert.append {first second : String} (here : IsInert first) (later : IsInert second) :
    IsInert (first ++ second) := by
  rw [IsInert, String.toList_append, List.forall_mem_append]
  exact ⟨here, later⟩

end Text

open Text (IsInert)

theorem Json.isInert_of_isNumeralChar {char : Char} (numeral : isNumeralChar char = true) :
    isInert char = true := by
  have visible : isVisible char = true := by
    simp only [isNumeralChar, Char.isDigit, Bool.or_eq_true, Bool.and_eq_true, decide_eq_true_eq,
      List.contains_iff_mem, List.mem_cons, List.not_mem_nil, or_false, ge_iff_le,
      UInt32.le_iff_toNat_le] at numeral
    rcases numeral with ⟨least, greatest⟩ | rfl | rfl | rfl | rfl | rfl
    · exact decide_eq_true ⟨Nat.le_trans (by decide) least,
        Nat.ne_of_lt (Nat.lt_of_le_of_lt greatest (by decide))⟩
    all_goals rfl
  have table : ([' ', '(', ')', '[', ']', '"'].all fun mark => !isNumeralChar mark) = true := rfl
  rw [isInert, visible, Bool.true_and, Bool.not_eq_true', List.contains_eq_mem,
    decide_eq_false_iff_not]
  intro member
  have other := List.all_eq_true.mp table char member
  rw [numeral] at other
  cases other

theorem Json.Scans.solid {text : List Char} {numeral : Json.Numeral}
    (scans : Json.Scans text numeral) : Solid text := by
  refine .word ?_ (fun char member => ?_)
  · obtain ⟨digit, rest, -, rfl | rfl⟩ := scans.head <;> exact List.cons_ne_nil _ _
  · exact isInert_of_isNumeralChar (scans.chars char member)

theorem Literal.solid (literal : Literal) : Solid literal.canonical := by
  rcases literal.word_cases with ⟨value, rfl⟩ | known | infinite | ⟨numeral, scans⟩
  · exact Text.solid_quoted value
  · have table : ∀ name ∈ Text.valueWords.map String.toList,
        name ≠ [] ∧ name.all isInert = true := by
      decide
    exact .word (table _ known).1 (List.all_eq_true.mp (table _ known).2)
  · rw [infinite]
    exact .word (List.cons_ne_nil _ _) (List.all_eq_true.mp rfl)
  · exact scans.solid

theorem Variable.inert {reference : Variable} (inert : IsInert reference.name) :
    ∀ char ∈ reference.canonical, isInert char = true := by
  rw [canonical, List.forall_mem_append]
  refine ⟨inert, ?_⟩
  cases reference.isMutable <;> exact List.all_eq_true.mp rfl

/-! ### Items -/

namespace Item

theorem templates_append (items others : List (Item α)) :
    templates (items ++ others) = templates items ++ templates others := by
  induction items with
  | nil => rfl
  | cons item rest ih =>
      rw [List.cons_append, templates, templates, ih]
      split <;> rfl

/-- None of the items asks for a space before a list, and those that are written are solid. -/
structure Tidy (write : α → List Char) (items : List (Item α)) : Prop where
  unmarked : ∀ item ∈ items, item.isLeadingSpace = false
  solid : ∀ template ∈ templates items, Solid (fill write template)

namespace Tidy

variable {write : α → List Char} {item : Item α} {items others : List (Item α)}

theorem nil : Tidy write [] := ⟨nofun, nofun⟩

theorem append (first : Tidy write items) (later : Tidy write others) :
    Tidy write (items ++ others) where
  unmarked := List.forall_mem_append.mpr ⟨first.unmarked, later.unmarked⟩
  solid := by
    rw [templates_append, List.forall_mem_append]
    exact ⟨first.solid, later.solid⟩

theorem cons (first : Tidy write [item]) (later : Tidy write items) :
    Tidy write (item :: items) := first.append later

theorem single (unmarked : item.isLeadingSpace = false)
    (solid : item.template ≠ [] → Solid (fill write item.template)) : Tidy write [item] where
  unmarked := List.forall_mem_singleton.mpr unmarked
  solid := by
    rw [templates]
    split
    · exact nofun
    · rename_i shown
      simp only [unmarked, Bool.false_or, List.isEmpty_iff] at shown
      exact List.forall_mem_singleton.mpr (solid shown)

theorem group (tidy : Tidy write items) : Tidy write [.group items] := by
  refine single rfl (fun _ => ?_)
  rw [fill_group]
  exact .enclosed (.inl ⟨rfl, rfl⟩) (List.forall_mem_map.mpr tidy.solid)

theorem bracket (tidy : Tidy write items) : Tidy write [.bracket items] := by
  refine single rfl (fun _ => ?_)
  have written : fill write (template (.bracket items)) =
      '[' :: (List.intercalate [' '] ((templates items).map (fill write)) ++ [']']) := by
    simp [template, fill, fill_intercalate]
  rw [written]
  exact .enclosed (.inr ⟨rfl, rfl⟩) (List.forall_mem_map.mpr tidy.solid)

theorem absent : Tidy write [.absent] := single rfl (fun shown => absurd rfl shown)

theorem atom {text : List Char} (inert : ∀ char ∈ text, isInert char = true) :
    Tidy write [.atom text] := by
  refine single ?_ (fun shown => ?_)
  · rw [isLeadingSpace_atom, decide_eq_false_iff_not]
    rintro rfl
    cases inert ' ' (List.mem_singleton_self ' ')
  · rw [template, fill_ofText]
    refine .word ?_ inert
    rintro rfl
    exact shown rfl

theorem word {text : String} (inert : IsInert text) : Tidy write [.word text] := atom inert

theorem int {value : Int64} : Tidy write [.int value] := by
  refine single rfl (fun _ => ?_)
  rw [template, fill_ofText]
  exact (Json.scans_integer value.toInt).solid

theorem tree {subtree : α} (solid : Solid (write subtree)) : Tidy write [.tree subtree] := by
  refine single rfl (fun _ => ?_)
  simpa [template, fill] using solid

theorem map {β : Type} {item : β → Item α} {elements : List β}
    (each : ∀ element ∈ elements, Tidy write [item element]) :
    Tidy write (elements.map item) := by
  induction elements with
  | nil => exact nil
  | cons element rest ih =>
      obtain ⟨first, others⟩ := List.forall_mem_cons.mp each
      exact first.cons (ih others)

theorem trees {subtrees : List α} (solid : ∀ subtree ∈ subtrees, Solid (write subtree)) :
    Tidy write (subtrees.map .tree) := map (fun subtree member => tree (solid subtree member))

theorem name {written : String → Item α} {name : Option String}
    (each : ∀ own ∈ name.toList, Tidy write [written own]) :
    Tidy write [(name.map written).getD .absent] := by
  cases name with
  | none => exact absent
  | some own => exact each own (List.mem_singleton_self own)

section Clauses

variable {subtree : Option α} (solid : ∀ child ∈ subtree.toList, Solid (write child))

include solid

theorem ofOption : Tidy write [ofOption subtree] := by
  cases subtree with
  | none => exact absent
  | some child => exact tree (solid child (List.mem_singleton_self child))

theorem clause {keyword : String} (inert : IsInert keyword) :
    Tidy write [clause keyword subtree] := by
  cases subtree with
  | none => exact absent
  | some child =>
      exact group (cons (word inert) (tree (solid child (List.mem_singleton_self child))))

end Clauses

theorem listClause {keyword : String} (inert : IsInert keyword) {subtrees : List α}
    (solid : ∀ subtree ∈ subtrees, Solid (write subtree)) :
    Tidy write [listClause keyword subtrees] := by
  cases subtrees with
  | nil => exact absent
  | cons first rest => exact group (cons (word inert) (bracket (trees solid)))

/-- Tidy items are written as one solid list. -/
theorem solid_listTemplate (tidy : Tidy write items) (nonempty : items ≠ []) :
    Solid (fill write (listTemplate items)) := by
  cases items with
  | nil => exact absurd rfl nonempty
  | cons first rest =>
      rw [listTemplate, tidy.unmarked first List.mem_cons_self, if_neg Bool.false_ne_true,
        fill_group]
      exact .enclosed (.inl ⟨rfl, rfl⟩) (List.forall_mem_map.mpr tidy.solid)

end Tidy

end Item

/-! ### Forms and trees -/

namespace Form

open Item (Tidy)

/-- The names and operators that are the form's own, texts of literals apart. -/
def ownNames : Form α → List String
  | .var reference => [reference.name]
  | .assign assignment => assignment.operator.toList
  | .op operation => [operation.tag]
  | .imports name => [name]
  | .proto prototype => prototype.name.toList
  | .switch choice => choice.cases.map SwitchCase.operator
  | .block sequence | .prog sequence => sequence.declared.map Variable.name
  | .func function => function.name.toList
  | _ => []

variable {write : α → List Char}

theorem declarations_tidy {declared : List Variable}
    (inert : ∀ name ∈ declared.map Variable.name, IsInert name) :
    Tidy write [(items.declarations declared : Item α)] := by
  cases declared with
  | nil => exact .absent
  | cons first rest =>
      refine (Tidy.cons (.word (by decide)) (.map (fun reference member => ?_))).group
      exact .atom (Variable.inert (inert _ (List.mem_map_of_mem member)))

theorem arm_tidy {arm : SwitchCase α} (inert : IsInert arm.operator)
    (solid : ∀ child ∈ arm.children, Solid (write child)) : Tidy write [.group arm.items] := by
  obtain ⟨token, operator, comparand, body, next⟩ := arm
  simp only [SwitchCase.children, List.forall_mem_append, List.forall_mem_singleton] at solid
  have link : Tidy write [if next.isSome then (.word "..." : Item α) else .absent] := by
    split
    · exact .word (by decide)
    · exact .absent
  exact (Tidy.cons (.word (by decide)) (.cons (.word inert)
    (.cons (.ofOption solid.1) (.cons (.tree solid.2) link)))).group

/-- Inert names and solid children make tidy items. -/
theorem items_tidy {form : Form α} (inert : ∀ name ∈ form.ownNames, IsInert name)
    (solid : ∀ child ∈ form.children, Solid (write child)) : Tidy write form.items := by
  cases form with
  | value literal => exact .nil
  | var reference => exact .nil
  | spread inner => exact .nil
  | imports name => exact .cons (.word (by decide)) (.word (inert name (.head _)))
  | branch jump =>
      obtain ⟨kind, level⟩ := jump
      exact .cons (.word (by cases kind <;> decide)) .int
  | tuple elements => exact .cons (.word (by decide)) (.trees solid)
  | op operation => exact .cons (.word (inert _ (.head _))) (.trees solid)
  | format parts => exact .cons (.word (by decide)) (.trees solid)
  | assign assignment =>
      obtain ⟨target, source, operator⟩ := assignment
      simp only [children, List.forall_mem_cons] at solid
      have marked : IsInert (operator.getD "" ++ "=") := by
        refine .append ?_ (by decide)
        cases operator with
        | none => exact (by decide : IsInert "")
        | some name => exact inert name (.head _)
      exact .cons (.word marked) (.cons (.tree solid.1) (.tree solid.2.1))
  | returns inner => exact .cons (.word (by decide)) (.tree (solid inner (.head _)))
  | call application =>
      simp only [children, List.forall_mem_cons] at solid
      exact .cons (.word (by decide)) (.cons (.tree solid.1) (.trees solid.2))
  | index indexing =>
      simp only [children, List.forall_mem_cons] at solid
      exact .cons (.word (by decide)) (.cons (.tree solid.1) (.bracket (.trees solid.2)))
  | loop repetition =>
      simp only [children, List.forall_mem_cons] at solid
      exact .cons (.word (by decide)) (.cons (.tree solid.1) (.clause solid.2 (by decide)))
  | cond conditional =>
      simp only [children, List.forall_mem_append] at solid
      exact .cons (.word (by decide)) (.cons (.ofOption solid.1.1)
        (.cons (.clause solid.1.2 (by decide)) (.clause solid.2 (by decide))))
  | proto prototype =>
      simp only [children, List.forall_mem_append] at solid
      obtain ⟨⟨⟨inParent, inPublics⟩, inPrivates⟩, inStatics⟩ := solid
      exact .cons (.word (by decide))
        (.cons (.name (fun own member => .word (.append (by decide) (inert own member))))
          (.cons (.clause inParent (by decide)) (.cons (.listClause (by decide) inPublics)
            (.cons (.listClause (by decide) inPrivates) (.listClause (by decide) inStatics)))))
  | switch choice =>
      simp only [children, List.forall_mem_cons, List.forall_mem_append] at solid
      obtain ⟨inScrutinee, ⟨⟨inCases, inFallback⟩, inConsequent⟩, inOtherwise⟩ := solid
      have arms : Tidy write (choice.cases.map (fun arm => .group arm.items)) :=
        .map (fun arm member => arm_tidy (inert _ (List.mem_map_of_mem member))
          (fun child inside => inCases child (List.mem_flatMap.mpr ⟨arm, member, inside⟩)))
      exact .cons (.word (by decide)) (.cons (.tree inScrutinee) (.append arms
        (.cons (.clause inFallback (by decide)) (.cons (.clause inConsequent (by decide))
          (.clause inOtherwise (by decide))))))
  | block sequence =>
      exact .cons (.word (by decide)) (.cons (declarations_tidy inert) (.trees solid))
  | prog sequence =>
      exact .cons (.word (by decide)) (.cons (declarations_tidy inert) (.trees solid))
  | func function =>
      simp only [children, List.forall_mem_append, List.forall_mem_singleton] at solid
      exact .cons (.word (by decide)) (.cons (.name (fun own member => .word (inert own member)))
        (.cons (.bracket (.trees solid.1)) (.tree solid.2)))
  | object pairs =>
      refine .cons (.word (by decide)) (.map (fun pair member => ?_))
      have inside : ∀ child ∈ [pair.1, pair.2], Solid (write child) := fun child within =>
        solid child (List.mem_flatMap.mpr ⟨pair, member, within⟩)
      simp only [List.forall_mem_cons] at inside
      exact (Tidy.cons (.word (by decide)) (.cons (.tree inside.1) (.tree inside.2.1))).group
  | forEach iteration =>
      simp only [children, List.forall_mem_cons, List.forall_mem_append] at solid
      obtain ⟨inTarget, inSource, inBody, inConsequent, inOtherwise⟩ := solid
      have given {child : α} (here : Solid (write child)) :
          ∀ inner ∈ (some child).toList, Solid (write inner) :=
        List.forall_mem_singleton.mpr here
      exact .cons (.word (by decide)) (.cons (.clause (given inTarget) (by decide))
        (.cons (.clause (given inSource) (by decide)) (.cons (.clause (given inBody) (by decide))
          (.cons (.clause inConsequent (by decide)) (.clause inOtherwise (by decide))))))

theorem solid_template {isSentinel : α → Bool} {form : Form α} (sound : form.Sound isSentinel)
    (inert : ∀ name ∈ form.ownNames, IsInert name)
    (solid : ∀ child ∈ form.children, Solid (write child)) :
    Solid (fill write form.template) := by
  have listed (some_items : form.items ≠ []) : Solid (fill write (Item.listTemplate form.items)) :=
    (items_tidy inert solid).solid_listTemplate some_items
  cases form with
  | value literal =>
      rw [template, fill_ofText]
      exact literal.solid
  | var reference =>
      rw [template, fill_ofText]
      exact .word (Variable.canonical_ne_nil sound) (Variable.inert (inert _ (.head _)))
  | spread inner =>
      have dots : Solid ['.', '.', '.'] := .word (List.cons_ne_nil _ _) (List.all_eq_true.mp rfl)
      simpa [template, fill] using dots.append (solid inner (.head _))
  | _ => exact listed (List.cons_ne_nil _ _)

end Form

namespace Node

theorem solid_canonicalText {node : Node} (regular : node.Throughout Regular)
    (inert : node.Throughout (fun inner => ∀ name ∈ inner.form.ownNames, IsInert name)) :
    Solid node.canonicalText := by
  induction node using Node.induction with
  | step node ih =>
      obtain ⟨here, below⟩ := throughout_iff.mp regular
      obtain ⟨own, others⟩ := throughout_iff.mp inert
      rw [(canonical_of_regular regular).2.1]
      exact Form.solid_template here.sound own
        (fun child member => ih child member (below child member) (others child member))

/--
However a tree was made, it has a canonical form, which is not empty. If all its names and
operators are inert, that is one well-formed line.
-/
theorem Constructible.canonical_line {node : Node} (constructible : Constructible node) :
    ∃ text, node.canonical = .ok text ∧ text ≠ [] ∧
      ((∀ inner ∈ node.walk, ∀ name ∈ inner.form.ownNames, IsInert name) →
        Line.WellFormed text) := by
  have regular := constructible.regular_throughout
  obtain ⟨canonical, -, nonempty⟩ := canonical_of_regular regular
  exact ⟨node.canonicalText, canonical, nonempty,
    fun inert => (solid_canonicalText regular inert).wellFormed⟩

set_option maxRecDepth 4096 in
/-- A text of a quote, brackets, spaces and a line end, behind two variables of which one shows. -/
theorem canonical_line_quoted :
    let node := block [value (.text "a\"( [\n")] [⟨"x", true⟩, ⟨"", false⟩]
    node.Constructible ∧ (∀ inner ∈ node.walk, ∀ name ∈ inner.form.ownNames, IsInert name) ∧
      node.canonical = .ok "(block (var x!) \"a\\\"( [\\n\")".toList ∧
      Line.WellFormed "(block (var x!) \"a\\\"( [\\n\")".toList := by
  intro node
  have elements_made : ∀ element ∈ [value (.text "a\"( [\n")], element.Constructible :=
    List.forall_mem_singleton.mpr (.value _)
  have made : node.Constructible := .block _ elements_made
  have inert : ∀ inner ∈ node.walk, ∀ name ∈ inner.form.ownNames, IsInert name := by decide
  have written : node.canonical = .ok "(block (var x!) \"a\\\"( [\\n\")".toList := rfl
  obtain ⟨text, canonical, -, lined⟩ := Constructible.canonical_line made
  rw [written] at canonical
  cases canonical
  exact ⟨made, inert, written, lined inert⟩

end Node

end SyntaxTree
