import SyntaxTree.Proofs.FormReading
import SyntaxTree.Proofs.ShapeKinds
import SyntaxTree.Proofs.Soundness
import SyntaxTree.Proofs.TreeEquality

/-!
# Forms are read off their shapes

Each part of a form stands where the kind of the form puts it, and an optional part is told from
what follows it by its keyword, or by having none. So forms with the same shape are the same, but
for tokens and the payloads of nans, and but for programs, which are read as blocks.
-/

namespace SyntaxTree

variable {α β γ : Type}

/-! ### Literals -/

/-- The words that are no numbers. -/
def wordLiterals : List (String × Literal) :=
  [("none", .sentinel), ("true", .bool true), ("false", .bool false),
    ("inf", .real (.infinity false)), ("-inf", .real (.infinity true)), ("nan", .real .nan)]

/-- The literal that a word is written for. -/
def Literal.ofWord? (word : List Char) : Option Literal :=
  match wordLiterals.find? (fun entry => entry.1.toList == word) with
  | some entry => some entry.2
  | none =>
      match Json.lexemes word with
      | [.numeral numeral] => numeral.value?.bind (fun value => (ofJson value).toOption)
      | _ => none

theorem Literal.ofWord?_of_scans {word : List Char} {numeral : Json.Numeral}
    (scans : Json.Scans word numeral) :
    ofWord? word = numeral.value?.bind (fun value => (ofJson value).toOption) := by
  have lexed : Json.lexemes word = [.numeral numeral] := by
    have scanned := scans.lexes [] [] trivial
    simpa [Json.lexemes, Json.Scanner.finish] using scanned
  have table : ∀ entry ∈ wordLiterals,
      entry.1.toList.head?.all (fun char => !char.isDigit) = true ∧
        entry.1.toList.tail.head?.all (fun char => !char.isDigit) = true := by decide
  have absent : wordLiterals.find? (fun entry => entry.1.toList == word) = none := by
    rw [List.find?_eq_none]
    intro entry member equal
    obtain ⟨first, second⟩ := table entry member
    obtain ⟨digit, rest, isDigit, begins⟩ := scans.head
    rw [eq_of_beq equal] at first second
    rcases begins with begins | begins <;> rw [begins] at first second
    · simp [isDigit] at first
    · simp [isDigit] at second
  simp only [ofWord?, absent, lexed]

/-- A literal that is no text is read back from its word. -/
theorem Literal.ofWord?_canonical (literal : Literal) (noText : ∀ value, literal ≠ .text value) :
    ofWord? literal.canonical = some literal.plain := by
  cases literal with
  | sentinel => rfl
  | bool value => cases value <;> rfl
  | text value => exact absurd rfl (noText value)
  | int value =>
      have least := value.le_toInt
      have below := value.toInt_lt
      rw [canonical, ofWord?_of_scans (Json.scans_integer value.toInt),
        Json.Numeral.value?_ofInt least (by omega), Option.bind_some, ofJson_integer]
      rfl
  | real value =>
      cases finite : value.isFinite with
      | true =>
          simp only [canonical, finite, if_true]
          rw [ofWord?_of_scans (Json.scans_real canonicalReal value),
            Json.Numeral.value?_ofReal (by decide) finite]
          simp only [plain, Binary64.isNaN_of_isFinite finite, Bool.false_eq_true, if_false]
          rfl
      | false =>
          simp only [canonical, finite, Bool.false_eq_true, if_false]
          cases number : value.isNaN with
          | true => simp only [Binary64.nonFiniteName, number, if_true, plain]; rfl
          | false =>
              have infinite := Binary64.eq_infinity finite number
              cases sign : value.negative <;> rw [sign] at infinite <;> rw [infinite] <;> rfl

/-- Literals of one shape are the same, but for the payloads of nans. -/
theorem Literal.plain_eq_of_shape_eq {first second : Literal} (same : first.shape = second.shape) :
    first.plain = second.plain := by
  have worded {literal other : Literal} (noText : ∀ value, literal ≠ .text value)
      (noOther : ∀ value, other ≠ .text value) (words : literal.canonical = other.canonical) :
      literal.plain = other.plain := by
    have read := ofWord?_canonical literal noText
    rw [words, ofWord?_canonical other noOther] at read
    exact (Option.some.inj read).symm
  cases first with
  | text value =>
      cases second with
      | text other => exact congrArg (fun value => plain (.text value)) (Shape.quoted.inj same)
      | _ => cases same
  | _ =>
      cases second with
      | text other => cases same
      | _ => exact worded nofun nofun (Shape.word.inj same)

/-! ### Parts in order -/

/-- Two lists that begin with what meets a condition and go on with what does not. -/
theorem append_inj_of_meets {meets : β → Prop} {firsts seconds rest others : List β}
    (firstsMeet : ∀ first ∈ firsts, meets first) (secondsMeet : ∀ second ∈ seconds, meets second)
    (restFails : ∀ part ∈ rest, ¬meets part) (othersFail : ∀ part ∈ others, ¬meets part)
    (same : firsts ++ rest = seconds ++ others) : firsts = seconds ∧ rest = others := by
  induction firsts generalizing seconds with
  | nil =>
      cases seconds with
      | nil => exact ⟨rfl, same⟩
      | cons second seconds =>
          have meet : meets second := secondsMeet second List.mem_cons_self
          rw [List.nil_append] at same
          exact absurd meet (restFails second (by rw [same]; exact List.mem_cons_self))
  | cons first firsts ih =>
      cases seconds with
      | nil =>
          have meet : meets first := firstsMeet first List.mem_cons_self
          rw [List.nil_append] at same
          exact absurd meet (othersFail first (by rw [← same]; exact List.mem_cons_self))
      | cons second seconds =>
          rw [List.forall_mem_cons] at firstsMeet secondsMeet
          obtain ⟨rfl, after⟩ := List.cons.inj same
          obtain ⟨rfl, follows⟩ := ih firstsMeet.2 secondsMeet.2 after
          exact ⟨rfl, follows⟩


/-- Where one image tells no more than another one, the lists of the one tell no more either. -/
theorem list_map_eq_of_imp {f : α → β} {g : α → γ} {firsts seconds : List α}
    (agree : ∀ first ∈ firsts, ∀ second ∈ seconds, f first = f second → g first = g second)
    (same : firsts.map f = seconds.map f) : firsts.map g = seconds.map g := by
  induction firsts generalizing seconds with
  | nil =>
      cases seconds with
      | nil => rfl
      | cons second seconds => cases same
  | cons first firsts ih =>
      cases seconds with
      | nil => cases same
      | cons second seconds =>
          obtain ⟨heads, tails⟩ := List.cons.inj same
          rw [List.map_cons, List.map_cons,
            agree first List.mem_cons_self second List.mem_cons_self heads,
            ih (fun one inside other within => agree one (List.mem_cons_of_mem first inside) other
              (List.mem_cons_of_mem second within)) tails]

theorem option_toList_inj {first second : Option β} (same : first.toList = second.toList) :
    first = second := by
  cases first <;> cases second <;> cases same <;> rfl

/-! ### Clauses -/

namespace Shape

/-- The word that a list begins with. -/
def keyword? : Shape → Option (List Char)
  | .group (.word keyword :: _) => some keyword
  | _ => none

/-- No part is a clause of the keyword. -/
def Lacks (keyword : String) (parts : List Shape) : Prop :=
  ∀ part ∈ parts, part.keyword? ≠ some keyword.toList

theorem Lacks.nil (keyword : String) : Lacks keyword [] := nofun

theorem Lacks.append {keyword : String} {firsts seconds : List Shape} (first : Lacks keyword firsts)
    (second : Lacks keyword seconds) : Lacks keyword (firsts ++ seconds) :=
  List.forall_mem_append.mpr ⟨first, second⟩

theorem keyword?_clause {keyword : String} {subtree : Option Shape} :
    ∀ part ∈ (Item.clause keyword subtree).shapes, part.keyword? = some keyword.toList := by
  rw [Item.shapes_clause, List.forall_mem_map]
  exact fun _ _ => rfl

theorem keyword?_listClause {keyword : String} {subtrees : List Shape} :
    ∀ part ∈ (Item.listClause keyword subtrees).shapes,
      part.keyword? = some keyword.toList := by
  rw [Item.shapes_listClause]
  split
  · nofun
  · exact List.forall_mem_singleton.mpr rfl

theorem Lacks.clause {keyword other : String} (distinct : other.toList ≠ keyword.toList)
    (subtree : Option Shape) : Lacks keyword (Item.clause other subtree).shapes := by
  intro part member equal
  rw [keyword?_clause part member] at equal
  exact distinct (Option.some.inj equal)

theorem Lacks.listClause {keyword other : String} (distinct : other.toList ≠ keyword.toList)
    (subtrees : List Shape) : Lacks keyword (Item.listClause other subtrees).shapes := by
  intro part member equal
  rw [keyword?_listClause part member] at equal
  exact distinct (Option.some.inj equal)

theorem clause_append_inj {keyword : String} {first second : Option Shape}
    {rest others : List Shape} (restLacks : Lacks keyword rest) (othersLack : Lacks keyword others)
    (same : (Item.clause keyword first).shapes ++ rest =
      (Item.clause keyword second).shapes ++ others) : first = second ∧ rest = others := by
  obtain ⟨clauses, follows⟩ :=
    append_inj_of_meets keyword?_clause keyword?_clause restLacks othersLack same
  refine ⟨?_, follows⟩
  cases first <;> cases second <;> simp_all [Item.shapes_clause]

theorem listClause_append_inj {keyword : String} {firsts seconds rest others : List Shape}
    (restLacks : Lacks keyword rest) (othersLack : Lacks keyword others)
    (same : (Item.listClause keyword firsts).shapes ++ rest =
      (Item.listClause keyword seconds).shapes ++ others) : firsts = seconds ∧ rest = others := by
  obtain ⟨clauses, follows⟩ :=
    append_inj_of_meets keyword?_listClause keyword?_listClause restLacks othersLack same
  refine ⟨?_, follows⟩
  cases firsts <;> cases seconds <;> simp_all [Item.shapes_listClause]

/-- The two clauses at the end of several kinds. -/
theorem thenElse_inj {consequent otherwise otherConsequent otherOtherwise : Option Shape}
    (same : (Item.clause "then" consequent).shapes ++ ((Item.clause "else" otherwise).shapes ++ []) =
      (Item.clause "then" otherConsequent).shapes ++
        ((Item.clause "else" otherOtherwise).shapes ++ [])) :
    consequent = otherConsequent ∧ otherwise = otherOtherwise := by
  obtain ⟨consequents, rest⟩ := clause_append_inj (.append (.clause (by decide) _) (.nil _))
    (.append (.clause (by decide) _) (.nil _)) same
  obtain ⟨alternatives, -⟩ := clause_append_inj (.nil _) (.nil _) rest
  exact ⟨consequents, alternatives⟩

end Shape

/-! ### Cases of switches -/

namespace SwitchCase

/-- The case but for its token and for the position it links to. -/
def unlinked (arm : SwitchCase α) : SwitchCase α :=
  { arm with token := none, next := arm.next.map (fun _ => 0) }

theorem listShapes_items (arm : SwitchCase Shape) :
    Item.listShapes arm.items =
      .word ['c', 'a', 's', 'e'] :: .word arm.operator.toList ::
        ((arm.comparand.toList ++ [arm.body]) ++
          if arm.next.isSome then [.word ['.', '.', '.']] else []) := by
  simp only [items, Item.listShapes, Item.shapes, Item.word, Item.shapes_ofOption]
  cases arm.next <;> simp [Item.shapes]

/-- The dots at the end are no tree, so they are told from the body. -/
theorem unlinked_eq_of_items {first second : SwitchCase Shape}
    (firstTrees : ∀ child ∈ first.children, child.kind? ≠ none)
    (secondTrees : ∀ child ∈ second.children, child.kind? ≠ none)
    (same : Item.listShapes first.items = Item.listShapes second.items) :
    first.unlinked = second.unlinked := by
  have dots (arm : SwitchCase Shape) : ∀ part ∈
      (if arm.next.isSome then [.word ['.', '.', '.']] else [] : List Shape),
      ¬part.kind? ≠ none := by
    split <;> simp [Shape.kind?, Text.isValueWord]
    decide
  rw [listShapes_items, listShapes_items] at same
  simp only [List.cons.injEq, true_and, Shape.word.injEq] at same
  obtain ⟨operators, parts⟩ := same
  obtain ⟨trees, ends⟩ := append_inj_of_meets firstTrees secondTrees (dots first) (dots second) parts
  obtain ⟨comparands, bodies⟩ := List.append_singleton_inj.mp trees
  have links : first.next.map (fun _ => 0) = second.next.map (fun _ => (0 : UInt64)) := by
    cases link : first.next <;> cases other : second.next <;> simp_all
  simp only [unlinked, String.toList_injective operators, option_toList_inj comparands, bodies,
    links]

end SwitchCase

/-- Linked cases that are the same but for their links are the same. -/
theorem Switch.cases_eq_of_unlinked {first second : Switch α} (firstLinked : first.Linked)
    (secondLinked : second.Linked)
    (same : first.cases.map SwitchCase.unlinked = second.cases.map SwitchCase.unlinked) :
    first.cases.map SwitchCase.plain = second.cases.map SwitchCase.plain := by
  refine List.ext_getElem? (fun position => ?_)
  have there : first.cases[position]?.map SwitchCase.unlinked =
      second.cases[position]?.map SwitchCase.unlinked := by
    rw [← List.getElem?_map, same, List.getElem?_map]
  rw [List.getElem?_map, List.getElem?_map]
  cases here : first.cases[position]? with
  | none =>
      cases other : second.cases[position]? with
      | none => rfl
      | some otherArm => simp [here, other] at there
  | some arm =>
      cases other : second.cases[position]? with
      | none => simp [here, other] at there
      | some otherArm =>
          have onward := firstLinked position arm here
          have otherOnward := secondLinked position otherArm other
          obtain ⟨token, operator, comparand, body, next⟩ := arm
          obtain ⟨otherToken, otherOperator, otherComparand, otherBody, otherNext⟩ := otherArm
          simp only [here, other, Option.map_some, Option.some.injEq, SwitchCase.unlinked,
            SwitchCase.mk.injEq, true_and] at there
          obtain ⟨rfl, rfl, rfl, links⟩ := there
          have sameNext : next = otherNext := by
            cases next with
            | none => cases otherNext <;> simp_all
            | some link =>
                cases otherNext with
                | none => simp at links
                | some otherLink =>
                    have place := (onward link rfl).1
                    have otherPlace := (otherOnward otherLink rfl).1
                    exact congrArg some (UInt64.toNat_inj.mp (place.trans otherPlace.symm))
          rw [sameNext]
          rfl

/-- The cases are told from the clauses after them, and the dots of each from its body. -/
theorem Switch.plain_eq_of_shapes_eq {first second : Switch Shape} (firstLinked : first.Linked)
    (secondLinked : second.Linked)
    (firstTrees : ∀ arm ∈ first.cases, ∀ child ∈ arm.children, child.kind? ≠ none)
    (secondTrees : ∀ arm ∈ second.cases, ∀ child ∈ arm.children, child.kind? ≠ none)
    (scrutinees : first.scrutinee = second.scrutinee)
    (same : first.cases.map (fun arm => Shape.group (Item.listShapes arm.items)) ++
        ((Item.clause "default" first.fallback).shapes ++
          ((Item.clause "then" first.consequent).shapes ++
            ((Item.clause "else" first.otherwise).shapes ++ []))) =
      second.cases.map (fun arm => Shape.group (Item.listShapes arm.items)) ++
        ((Item.clause "default" second.fallback).shapes ++
          ((Item.clause "then" second.consequent).shapes ++
            ((Item.clause "else" second.otherwise).shapes ++ [])))) :
    { first with cases := first.cases.map SwitchCase.plain } =
      { second with cases := second.cases.map SwitchCase.plain } := by
  have isCase (arms : List (SwitchCase Shape)) :
      ∀ part ∈ arms.map (fun arm => Shape.group (Item.listShapes arm.items)),
        part.keyword? = some "case".toList := by
    rw [List.forall_mem_map]
    intro arm member
    rw [SwitchCase.listShapes_items]
    rfl
  have noCase (choice : Switch Shape) : Shape.Lacks "case"
      ((Item.clause "default" choice.fallback).shapes ++
        ((Item.clause "then" choice.consequent).shapes ++
          ((Item.clause "else" choice.otherwise).shapes ++ []))) :=
    .append (.clause (by decide) _) (.append (.clause (by decide) _)
      (.append (.clause (by decide) _) (.nil _)))
  have noDefault (choice : Switch Shape) : Shape.Lacks "default"
      ((Item.clause "then" choice.consequent).shapes ++
        ((Item.clause "else" choice.otherwise).shapes ++ [])) :=
    .append (.clause (by decide) _) (.append (.clause (by decide) _) (.nil _))
  obtain ⟨arms, clauses⟩ := append_inj_of_meets (isCase first.cases) (isCase second.cases)
    (noCase first) (noCase second) same
  obtain ⟨fallbacks, rest⟩ := Shape.clause_append_inj (noDefault first) (noDefault second) clauses
  obtain ⟨consequents, otherwise⟩ := Shape.thenElse_inj rest
  have unlinked := list_map_eq_of_imp (g := SwitchCase.unlinked)
    (fun arm inside other within equal => SwitchCase.unlinked_eq_of_items (firstTrees arm inside)
      (secondTrees other within) (Shape.group.inj equal)) arms
  have cases := Switch.cases_eq_of_unlinked firstLinked secondLinked unlinked
  exact Switch.ext scrutinees cases fallbacks consequents otherwise

/-! ### Prototypes -/

/-- The name is told from the clauses after it, which have keywords. -/
theorem Prototype.eq_of_shapes_eq {first second : Prototype Shape}
    (same :
      ((first.name.map (fun name => Item.word (":" ++ name))).getD .absent).shapes ++
          ((Item.clause "is" first.parent).shapes ++
            ((Item.listClause "public" first.publics).shapes ++
              ((Item.listClause "private" first.privates).shapes ++
                ((Item.listClause "static" first.statics).shapes ++ [])))) =
        ((second.name.map (fun name => Item.word (":" ++ name))).getD .absent).shapes ++
          ((Item.clause "is" second.parent).shapes ++
            ((Item.listClause "public" second.publics).shapes ++
              ((Item.listClause "private" second.privates).shapes ++
                ((Item.listClause "static" second.statics).shapes ++ []))))) :
    first = second := by
  have nameless (name : Option String) :
      ∀ part ∈ name.toList.map (fun name => Shape.word (":" ++ name).toList),
        part.keyword? = none := by
    rw [List.forall_mem_map]
    exact fun _ _ => rfl
  have keyed {keyword : String} {parts : List Shape}
      (keywords : ∀ part ∈ parts, part.keyword? = some keyword.toList) :
      ∀ part ∈ parts, ¬part.keyword? = none := by
    intro part member none
    rw [keywords part member] at none
    cases none
  have clauses (prototype : Prototype Shape) : ∀ part ∈
      (Item.clause "is" prototype.parent).shapes ++
        ((Item.listClause "public" prototype.publics).shapes ++
          ((Item.listClause "private" prototype.privates).shapes ++
            ((Item.listClause "static" prototype.statics).shapes ++ []))),
      ¬part.keyword? = none := by
    simp only [List.forall_mem_append]
    exact ⟨keyed Shape.keyword?_clause, keyed Shape.keyword?_listClause,
      keyed Shape.keyword?_listClause, keyed Shape.keyword?_listClause, List.forall_mem_nil _⟩
  rw [Item.shapes_name, Item.shapes_name] at same
  obtain ⟨written, parts⟩ := append_inj_of_meets (nameless first.name) (nameless second.name)
    (clauses first) (clauses second) same
  have names : first.name = second.name := by
    refine option_toList_inj ?_
    simpa using list_map_eq_of_imp (g := id) (fun name _ other _ equal =>
      String.toList_injective (by simpa using Shape.word.inj equal)) written
  obtain ⟨parents, parts⟩ := Shape.clause_append_inj
    (.append (.listClause (by decide) _) (.append (.listClause (by decide) _)
      (.append (.listClause (by decide) _) (.nil _))))
    (.append (.listClause (by decide) _) (.append (.listClause (by decide) _)
      (.append (.listClause (by decide) _) (.nil _)))) parts
  obtain ⟨publics, parts⟩ := Shape.listClause_append_inj
    (.append (.listClause (by decide) _) (.append (.listClause (by decide) _) (.nil _)))
    (.append (.listClause (by decide) _) (.append (.listClause (by decide) _) (.nil _))) parts
  obtain ⟨privates, parts⟩ := Shape.listClause_append_inj
    (.append (.listClause (by decide) _) (.nil _)) (.append (.listClause (by decide) _) (.nil _))
    parts
  obtain ⟨statics, -⟩ := Shape.listClause_append_inj (.nil _) (.nil _) parts
  exact Prototype.ext names parents publics privates statics

/-! ### Declarations -/

theorem Variable.eq_of_canonical_eq {first second : Variable}
    (firstNamed : Text.Identifier first.name) (secondNamed : Text.Identifier second.name)
    (same : first.canonical = second.canonical) : first = second := by
  have marks (reference : Variable) : ∀ char ∈ if reference.isMutable then ['!'] else [],
      ¬Text.isNameChar char = true := by
    refine List.any_eq_false.mp ?_
    cases reference.isMutable <;> decide
  obtain ⟨names, marked⟩ := append_inj_of_meets firstNamed.chars secondNamed.chars (marks first)
    (marks second) same
  obtain ⟨name, isMutable⟩ := first
  obtain ⟨otherName, otherMutable⟩ := second
  simp only [Variable.mk.injEq]
  refine ⟨String.toList_injective names, ?_⟩
  cases isMutable <;> cases otherMutable <;> first | rfl | cases marked

theorem shapes_declarations (declared : List Variable) :
    (Form.items.declarations declared : Item Shape).shapes =
      if declared = [] then []
      else [.group (.word ['v', 'a', 'r'] ::
        declared.map (fun reference => .word reference.canonical))] := by
  have atoms (declared : List Variable) :
      Item.listShapes (declared.map (fun reference => .atom reference.canonical)) =
        declared.map (fun reference => .word reference.canonical) := by
    rw [Item.listShapes_eq_flatMap, List.flatMap_map]
    exact List.map_eq_flatMap.symm
  cases declared with
  | nil => rfl
  | cons reference rest =>
      simp only [Form.items.declarations, Item.shapes, Item.listShapes, Item.word, atoms,
        List.cons_append, List.nil_append, reduceCtorEq, if_false]
      rfl

/-- The declarations are told from the elements, which are trees. -/
theorem Block.eq_of_shapes_eq {first second : Block Shape}
    (firstNamed : ∀ reference ∈ first.declared, Text.Identifier reference.name)
    (secondNamed : ∀ reference ∈ second.declared, Text.Identifier reference.name)
    (firstTrees : ∀ child ∈ first.elements, child.kind? ≠ none)
    (secondTrees : ∀ child ∈ second.elements, child.kind? ≠ none)
    (same : (Form.items.declarations first.declared).shapes ++ first.elements =
      (Form.items.declarations second.declared).shapes ++ second.elements) : first = second := by
  have noTree (declared : List Variable) :
      ∀ part ∈ (Form.items.declarations declared : Item Shape).shapes, part.kind? = none := by
    cases declared with
    | nil => nofun
    | cons reference rest => exact List.forall_mem_singleton.mpr rfl
  obtain ⟨declarations, elements⟩ := append_inj_of_meets (noTree first.declared)
    (noTree second.declared) firstTrees secondTrees same
  have references : first.declared = second.declared := by
    have words : first.declared.map (fun reference => Shape.word reference.canonical) =
        second.declared.map (fun reference => Shape.word reference.canonical) := by
      rw [shapes_declarations, shapes_declarations] at declarations
      by_cases none : first.declared = [] <;> by_cases noOther : second.declared = [] <;>
        simp_all
    simpa using list_map_eq_of_imp (g := id) (fun one inside other within equal =>
      Variable.eq_of_canonical_eq (firstNamed one inside) (secondNamed other within)
        (Shape.word.inj equal)) words
  exact Block.ext elements references

/-! ### Forms -/

namespace Form

theorem noTree_thenElse (consequent otherwise : Option Shape) :
    ∀ part ∈ (Item.clause "then" consequent).shapes ++
      ((Item.clause "else" otherwise).shapes ++ []), ¬part.kind? ≠ none := by
  have clause (keyword : String) (unkind : headKind? keyword.toList = none)
      (subtree : Option Shape) : ∀ part ∈ (Item.clause keyword subtree).shapes,
        ¬part.kind? ≠ none := by
    rw [Item.shapes_clause, List.forall_mem_map]
    exact fun _ _ kinded => kinded unkind
  rw [List.forall_mem_append, List.append_nil]
  exact ⟨clause "then" (by decide) consequent, clause "else" (by decide) otherwise⟩

theorem plain_eq_of_shape_eq {first second : Form Shape} (firstNamed : first.Named)
    (secondNamed : second.Named) (firstFaultless : first.fault? = none)
    (secondFaultless : second.fault? = none)
    (firstTrees : ∀ child ∈ first.children, child.kind? ≠ none)
    (secondTrees : ∀ child ∈ second.children, child.kind? ≠ none)
    (same : first.shape = second.shape) : first.progAsBlock.plain = second.progAsBlock.plain := by
  have kinds : first.progAsBlock.kind = second.progAsBlock.kind := by
    have shown := kind?_shape firstNamed
    rw [same, kind?_shape secondNamed] at shown
    exact (Option.some.inj shown).symm
  cases first <;> cases second <;> cases kinds
  all_goals
    simp only [shape, items, Item.listShapes, Item.shapes, Item.shapes_ofOption,
      Item.shapes_word, Item.shapes_clause_some, Item.listShapes_trees, Shape.group.injEq,
      List.cons_append, List.nil_append, List.cons.injEq, true_and, and_true,
      Shape.word.injEq, Shape.spread.injEq, Shape.bracket.injEq] at same
    simp only [children, List.forall_mem_append, List.forall_mem_cons] at firstTrees secondTrees
  case value.value.refl => exact congrArg value (Literal.plain_eq_of_shape_eq same)
  case var.var.refl =>
    exact congrArg var (Variable.eq_of_canonical_eq firstNamed secondNamed same)
  case spread.spread.refl => exact congrArg spread same
  case assign.assign.refl first second =>
    obtain ⟨operators, targets, sources⟩ := same
    refine congrArg assign (Assignment.ext targets sources ?_)
    rw [String.toList_append, String.toList_append, List.append_left_inj] at operators
    have nonempty (assignment : Assignment Shape) (named : (assign assignment).Named) :
        assignment.operator ≠ some "" := fun empty => (named "" empty).nonempty rfl
    have firstThere := nonempty first firstNamed
    have secondThere := nonempty second secondNamed
    have texts := String.toList_injective operators
    cases operator : first.operator <;> cases other : second.operator <;> simp_all
  case tuple.tuple.refl => exact congrArg tuple same
  case call.call.refl => exact congrArg call (Call.ext same.1 same.2)
  case index.index.refl => exact congrArg index (Indexing.ext same.1 same.2)
  case loop.loop.refl =>
    obtain ⟨bodies, clauses⟩ := same
    obtain ⟨otherwise, -⟩ := Shape.clause_append_inj (.nil _) (.nil _) clauses
    exact congrArg loop (Loop.ext bodies otherwise)
  case cond.cond.refl first second =>
    obtain ⟨⟨conditionTree, -⟩, -⟩ := firstTrees
    obtain ⟨⟨otherTree, -⟩, -⟩ := secondTrees
    obtain ⟨conditions, clauses⟩ := append_inj_of_meets conditionTree otherTree
      (noTree_thenElse first.consequent first.otherwise)
      (noTree_thenElse second.consequent second.otherwise) same
    obtain ⟨consequents, otherwise⟩ := Shape.thenElse_inj clauses
    exact congrArg cond (Conditional.ext (option_toList_inj conditions) consequents otherwise)
  case branch.branch.refl first second =>
    obtain ⟨kind, level⟩ := first
    obtain ⟨otherKind, otherLevel⟩ := second
    obtain ⟨names, numbers⟩ := same
    have kinds := congrArg BranchKind.ofName? (String.toList_injective names)
    rw [BranchKind.ofName?_name, BranchKind.ofName?_name] at kinds
    have levels : (Literal.int level).plain = (Literal.int otherLevel).plain :=
      Literal.plain_eq_of_shape_eq (congrArg Shape.word numbers)
    cases Option.some.inj kinds
    cases Literal.int.inj levels
    rfl
  case op.op.refl first second =>
    exact congrArg op (Operation.ext (String.toList_injective same.1) same.2)
  case imports.imports.refl => exact congrArg imports (String.toList_injective same)
  case proto.proto.refl => exact congrArg proto (Prototype.eq_of_shapes_eq same)
  case returns.returns.refl => exact congrArg returns same
  case switch.switch.refl first second =>
    simp only [Item.listShapes_append, Item.listShapes_groups, Item.listShapes] at same
    simp only [List.mem_flatMap, forall_exists_index, and_imp] at firstTrees secondTrees
    exact congrArg switch (Switch.plain_eq_of_shapes_eq (linked_iff.mpr firstFaultless)
      (linked_iff.mpr secondFaultless)
      (fun arm inside child member => firstTrees.2.1.1.1 child arm inside member)
      (fun arm inside child member => secondTrees.2.1.1.1 child arm inside member) same.1 same.2)
  case block.block.refl first second =>
    exact congrArg block (Block.eq_of_shapes_eq firstNamed secondNamed firstTrees secondTrees same)
  case block.prog.refl first second =>
    exact congrArg block (Block.eq_of_shapes_eq firstNamed secondNamed firstTrees secondTrees same)
  case prog.block.refl first second =>
    exact congrArg block (Block.eq_of_shapes_eq firstNamed secondNamed firstTrees secondTrees same)
  case prog.prog.refl first second =>
    exact congrArg block (Block.eq_of_shapes_eq firstNamed secondNamed firstTrees secondTrees same)
  case func.func.refl first second =>
    obtain ⟨name, parameters, body⟩ := first
    obtain ⟨otherName, otherParameters, otherBody⟩ := second
    cases name <;> cases otherName <;>
      simp only [Option.map_none, Option.map_some, Option.getD_none, Option.getD_some,
        Item.shapes_word, Item.shapes, List.cons_append, List.nil_append, List.cons.injEq,
        Shape.bracket.injEq, Shape.word.injEq, reduceCtorEq, false_and, and_true] at same
    · rw [same.1, same.2]
    · rw [String.toList_injective same.1, same.2.1, same.2.2]
  case format.format.refl => exact congrArg format same
  case object.object.refl first second =>
    refine congrArg object ?_
    rw [Item.listShapes_groups, Item.listShapes_groups] at same
    simpa using list_map_eq_of_imp (g := id) (fun one _ other _ equal => by
      simpa [Item.listShapes, Item.shapes, Item.word, Prod.ext_iff] using equal) same
  case forEach.forEach.refl first second =>
    obtain ⟨targets, sources, bodies, clauses⟩ := same
    obtain ⟨consequents, otherwise⟩ := Shape.thenElse_inj clauses
    exact congrArg forEach (Iteration.ext targets sources bodies consequents otherwise)

end Form
end SyntaxTree
