import SyntaxTree.CanonicalForm
import SyntaxTree.Proofs.TreeReading

/-!
# Equal trees cannot be told apart

The JSON of a tree, its canonical form and its flags do not depend on what erasing removes. The
JSON text determines the erased tree, since reading the text gives it. And building a larger tree
around a place gives equal results for equal trees in that place.
-/

namespace SyntaxTree

open Json (Codec Field Lexeme Reader Record)

variable {α : Type}

/-! ### What erasing leaves alone -/

theorem Literal.plain_cases (literal : Literal) :
    literal.plain = literal ∨
      ∃ value : Binary64, literal = .real value ∧ value.isNaN = true ∧
        literal.plain = .real Binary64.nan := by
  cases literal with
  | real value =>
      cases number : value.isNaN with
      | false => exact .inl (by simp [plain, number])
      | true => exact .inr ⟨value, rfl, number, by simp [plain, number]⟩
  | _ => exact .inl rfl

theorem Binary64.isFinite_of_isNaN {value : Binary64} (number : value.isNaN = true) :
    value.isFinite = false := by
  refine Bool.eq_false_iff.mpr (fun finite => ?_)
  rw [isNaN_of_isFinite finite] at number
  cases number

theorem Binary64.isNaN_nan : Binary64.nan.isNaN = true := by decide

theorem Literal.toJson_plain (literal : Literal) : literal.plain.toJson = literal.toJson := by
  rcases plain_cases literal with same | ⟨value, rfl, number, nan⟩
  · rw [same]
  · rw [nan]
    simp only [toJson, Binary64.nonFiniteName, number, Binary64.isNaN_nan,
      Binary64.isFinite_of_isNaN number, Binary64.isFinite_of_isNaN Binary64.isNaN_nan,
      Bool.false_eq_true, if_false, if_true]

theorem Literal.canonical_plain (literal : Literal) :
    literal.plain.canonical = literal.canonical := by
  rcases plain_cases literal with same | ⟨value, rfl, number, nan⟩
  · rw [same]
  · rw [nan]
    simp only [canonical, Binary64.nonFiniteName, number, Binary64.isNaN_nan,
      Binary64.isFinite_of_isNaN number, Binary64.isFinite_of_isNaN Binary64.isNaN_nan,
      Bool.false_eq_true, if_false, if_true]

namespace Form

theorem write_plain (child : Codec α) (form : Form α) :
    form.plain.write child = form.write child := by
  cases form with
  | value literal => exact literal.toJson_plain
  | switch choice =>
      have arms : (choice.cases.map SwitchCase.plain).map (SwitchCase.record child).write =
          choice.cases.map (SwitchCase.record child).write := List.map_map
      simp only [plain, write, Record.write, Switch.record, Record.members, Field.list,
        Field.defaulting, Codec.list, Record.codec, arms]
  | _ => rfl

theorem canonical_plain (write : α → Except UnprintableLiteral (List Char)) (form : Form α) :
    form.plain.canonical write = form.canonical write := by
  cases form with
  | value literal => exact congrArg Except.ok literal.canonical_plain
  | switch choice =>
      simp only [plain, canonical, items, List.map_map]
      rfl
  | _ => rfl

theorem isStatement_plain (form : Form α) : form.plain.isStatement = form.isStatement := by
  cases form <;> rfl

theorem isStatement_map {β : Type} (f : α → β) (form : Form α) :
    (form.map f).isStatement = form.isStatement := by
  cases form <;> rfl

end Form

namespace Node

theorem toJson_erased (node : Node) : node.erased.toJson = node.toJson := by
  induction node using Node.induction with
  | step node ih =>
      have images : (node.form.map erased).map toJson = node.form.map toJson := by
        rw [Form.map_map]
        exact Form.map_congr ih
      rw [toJson, fold_eq, fold_eq _ node, ← toJson, form_erased, ← Form.plain_map, images]
      simp only [Form.toJson, Form.write_plain, Form.kind_plain]

theorem canonical_erased (node : Node) : node.erased.canonical = node.canonical := by
  induction node using Node.induction with
  | step node ih =>
      have images : (node.form.map erased).map canonical = node.form.map canonical := by
        rw [Form.map_map]
        exact Form.map_congr ih
      rw [canonical, fold_eq, fold_eq _ node, ← canonical, form_erased, ← Form.plain_map, images,
        Form.canonical_plain]

theorem summary_erased (node : Node) : node.erased.summary = node.summary := by
  have kind_erased : node.erased.kind = node.kind := by
    rw [kind, form_erased, Form.kind_plain, Form.kind_map]
    rfl
  have isStatement_erased : node.erased.isStatement = node.isStatement := by
    rw [isStatement, form_erased, Form.isStatement_plain, Form.isStatement_map]
    rfl
  simp only [summary, isLValue_erased, isRValue_erased, kind_erased, isStatement_erased]

theorem erased_withToken (token : Token) (node : Node) :
    (node.withToken token).erased = node.erased := by
  unfold withToken
  split
  · rfl
  · rw [erased_eq, erased_eq node]
    rfl

/-! ### Larger trees -/

/-- The node with the token of another, where a program keeps none. -/
def withTokenOf (origin node : Node) : Node :=
  match origin.token? with
  | none => node
  | some token => node.withToken token

/--
The tree built anew with a node in place of every hole. What counts as a hole is told by a
question on nodes, so there may be any number of them anywhere.
-/
def substitute (isHole : Node → Bool) (filling : Node) : Node → Except Malformation Node :=
  fold (fun node outcomes =>
    if isHole node then
      .ok filling
    else do
      let form ← outcomes.mapM (fun outcome => outcome)
      return node.withTokenOf (← ofForm form))

theorem erased_withTokenOf (origin node : Node) :
    (origin.withTokenOf node).erased = node.erased := by
  unfold withTokenOf
  split
  · rfl
  · exact erased_withToken _ node

/-- Around the holes, substituting is building, with tokens that erasing does not see. -/
theorem erased_substitute (isHole : Node → Bool) (filling node : Node) :
    erased <$> substitute isHole filling node =
      if isHole node then
        .ok filling.erased
      else
        (Form.plain <$> node.form.mapM (fun child => erased <$> substitute isHole filling child))
          >>= ofForm := by
  rw [ofForm_mapM_erased, substitute, fold_eq, ← substitute, Form.mapM_map]
  split
  · rfl
  · cases node.form.mapM (fun child => substitute isHole filling child) with
    | error malformation => rfl
    | ok form =>
        change erased <$> (node.withTokenOf <$> ofForm form) = erased <$> ofForm form
        cases ofForm form with
        | error malformation => rfl
        | ok built => exact congrArg Except.ok (erased_withTokenOf node built)

theorem substitute_congr (isHole : Node → Bool) {first second : Node}
    (same : first.erased = second.erased) (larger : Node) :
    erased <$> substitute isHole first larger = erased <$> substitute isHole second larger := by
  induction larger using Node.induction with
  | step larger ih => rw [erased_substitute, erased_substitute, same, Form.mapM_congr ih]

/-- Both trees were built and are equal, or the same is wrong with both. -/
def Alike : Except Malformation Node → Except Malformation Node → Prop
  | .ok first, .ok second => (first == second) = true
  | .error first, .error second => first = second
  | _, _ => False

theorem alike_iff {first second : Except Malformation Node} :
    Alike first second ↔ erased <$> first = erased <$> second := by
  cases first <;> cases second <;> simp [Alike, Functor.map, Except.map, beq_iff_erased_eq]

/-! ### Equality -/

/-- The JSON text of a tree determines the tree, but for its tokens. -/
theorem erased_eq_of_jsonText_eq {first second : Node} (firstMade : first.Constructible)
    (secondMade : second.Constructible) (same : first.jsonText = second.jsonText) :
    first.erased = second.erased := by
  obtain ⟨firstBuilt, firstOutcome, firstSame⟩ := build_of_regular firstMade.regular_throughout
  obtain ⟨secondBuilt, secondOutcome, secondSame⟩ :=
    build_of_regular secondMade.regular_throughout
  have spellings : first.toJson.spelling = second.toJson.spelling := by
    rw [← Json.lexemes_compact, ← Json.lexemes_compact]
    exact congrArg Json.lexemes (String.ofList_injective same)
  -- Enough levels for both trees.
  let levels := max first.toJson.depth second.toJson.depth
  have firstTaken := (read_reads (levels + 1) first).within levels (Nat.lt_succ_self _)
    (Nat.le_max_left _ _) []
  have secondTaken := (read_reads (levels + 1) second).within levels (Nat.lt_succ_self _)
    (Nat.le_max_right _ _) []
  rw [spellings, secondTaken, firstOutcome, secondOutcome] at firstTaken
  have delivered : secondBuilt.erased = firstBuilt.erased :=
    congrArg Prod.fst (Except.ok.inj firstTaken)
  rw [← firstSame, ← secondSame, delivered]

/--
Equal trees are those that are identical but for tokens and the payloads of nans, and those with
the same JSON text. They have the same canonical form and the same flags throughout, and one can
be put in the place of the other in any larger tree.
-/
theorem equality_iff {first second : Node} (firstMade : first.Constructible)
    (secondMade : second.Constructible) :
    ((first == second) = true ↔ first.erased = second.erased) ∧
      (first.erased = second.erased ↔ first.jsonText = second.jsonText) ∧
      ((first == second) = true →
        first.canonical = second.canonical ∧
          first.walk.map summary = second.walk.map summary ∧
          ∀ isHole larger, Alike (substitute isHole first larger)
            (substitute isHole second larger)) := by
  have same_text (same : first.erased = second.erased) : first.jsonText = second.jsonText := by
    rw [jsonText, ← toJson_erased, same, toJson_erased, jsonText]
  refine ⟨beq_iff_erased_eq, ⟨same_text, erased_eq_of_jsonText_eq firstMade secondMade⟩,
    fun equal => ?_⟩
  have same := beq_iff_erased_eq.mp equal
  have summaries (node : Node) : node.erased.walk.map summary = node.walk.map summary := by
    rw [walk_erased, List.map_map]
    exact List.map_congr_left (fun inner _ => summary_erased inner)
  refine ⟨?_, ?_, fun isHole larger => alike_iff.mpr (substitute_congr isHole same larger)⟩
  · rw [← canonical_erased, same, canonical_erased]
  · rw [← summaries, same, summaries]

/-- Two nans of different payloads, one of them with a token. -/
theorem equality_iff_nan_payload :
    let first := value (.real .nan)
    let second := (value (.real ⟨true, ⟨Binary64.infiniteMagnitude + 1, by decide⟩⟩)).withToken
      ⟨.text "nan", 1, 5⟩
    first.Constructible ∧ second.Constructible ∧ (first == second) = true ∧
      first.erased = second.erased ∧ first.jsonText = second.jsonText ∧
      first.canonical = second.canonical := by
  intro first second
  have firstMade : first.Constructible := .value _
  have secondMade : second.Constructible := .withToken _ (.value _)
  have equal : (first == second) = true := by decide
  obtain ⟨erasure, text, observed⟩ := equality_iff firstMade secondMade
  have same := erasure.mp equal
  exact ⟨firstMade, secondMade, equal, same, text.mp same, (observed equal).1⟩

end Node
end SyntaxTree
