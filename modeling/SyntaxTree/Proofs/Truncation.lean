import SyntaxTree.Proofs.CutForms
import SyntaxTree.Proofs.NormalForm

/-!
# Truncated and overlong texts

The text of a tree that is cut before its end is refused for that alone, whatever the cut divides.
Behind the whole text there may be blanks; anything else is refused as invalid.
-/

namespace SyntaxTree

open Json (Codec Reader Scanner)
open Json.Reader (Follows Stops)

/-- The characters that may stand around the lexemes of a text. -/
def blankCharacters : List Char := [' ', '\t', '\n', '\r']

theorem Json.isBlank_iff {char : Char} :
    Scanner.isBlank char = true ↔ char ∈ blankCharacters := by
  simp [Scanner.isBlank, blankCharacters, or_assoc]

namespace Node

theorem readUpTo_takes (height : Nat) {node : Node} (regular : node.Throughout Regular) :
    (readUpTo height).Takes height node.toJson.spelling node.toJson.depth (.ok node.erased) := by
  obtain ⟨built, outcome, same⟩ := build_of_regular regular
  have taken := readUpTo_reads height node
  rw [outcome] at taken
  exact taken.cast rfl rfl (congrArg Except.ok same)

/-- A node that is cut is never assembled, so it is not checked either. -/
theorem readUpTo_stops (height : Nat) {node : Node} (regular : node.Throughout Regular) :
    (readUpTo height).Stops height node.toJson.spelling node.toJson.depth := by
  induction node using Node.induction generalizing height with
  | step node ih =>
      cases height with
      | zero => exact fun _ fewer => absurd fewer (Nat.not_lt_zero _)
      | succ height =>
          obtain ⟨-, children⟩ := throughout_iff.mp regular
          let child : Codec Node := ⟨readUpTo height, toJson⟩
          have data : (Form.read child node.form.kind).Follows height (node.form.write child) :=
            Form.follows toJson_ne_null node.form (fun inner member =>
              ⟨⟨_, readUpTo_takes height (children inner member)⟩,
                (ih inner member height (children inner member)).breaks⟩)
          have object : (Reader.variant (Kind.all.map Kind.name) Kind.ofName?
              (fun _ => .error (.invalidType .bareName "newtype variant"))
              (Form.read child)).Stops (height + 1) _ _ :=
            Stops.variant (Kind.ofName?_name node.kind) data
          refine (object.andThen assembled).cast ?_ ?_
          · rw [toJson_eq node (readUpTo height)]
            simp [Json.spelling, Json.memberSpellings, child]
          · rw [toJson_eq node (readUpTo height)]
            simp [Json.depth, Json.memberDepths, child]

theorem ofJsonText_kept {node : Node} (regular : node.Throughout Regular)
    (shallow : node.toJson.depth ≤ nestingLimit) {kept cut : List Char}
    (whole : node.toJson.compact = kept ++ cut) (nonempty : cut ≠ []) :
    ofJsonText (String.ofList kept) = .error (.fault .ended) := by
  have stopped := readUpTo_stops (nestingLimit + 1) regular nestingLimit
    (Nat.lt_succ_self nestingLimit) shallow _ (Json.cut_of_compact whole nonempty)
  change read nestingLimit _ = _ at stopped
  simp only [ofJsonText, readText, Reader.run, String.toList_ofList, stopped]

/-- Anything but blanks behind the text leaves lexemes. -/
theorem ofJsonText_followed {node : Node} (regular : node.Throughout Regular)
    (shallow : node.toJson.depth ≤ nestingLimit) {more : List Char}
    (visible : ∃ char ∈ more, Scanner.isBlank char = false) :
    ofJsonText (String.ofList (node.toJson.compact ++ more)) = .error (.fault .invalid) := by
  have taken := (readUpTo_takes (nestingLimit + 1) regular).within nestingLimit
    (Nat.lt_succ_self nestingLimit) shallow (Json.lexemes more)
  change read nestingLimit _ = _ at taken
  have lexemes : Json.lexemes (node.toJson.compact ++ more) =
      node.toJson.spelling ++ Json.lexemes more := by
    rw [toJson_eq node read]
    exact Json.lexemes_object_append _ more
  obtain ⟨first, rest, remains⟩ := List.exists_cons_of_ne_nil (Json.lexemes_ne_nil visible)
  rw [remains] at taken lexemes
  simp only [ofJsonText, readText, Reader.run, String.toList_ofList, lexemes, taken]
  rfl

/--
Every proper beginning of the text of a tree ends too early, blanks behind the text are passed
over, and any other character behind it is refused.
-/
theorem ofJsonText_truncated_or_followed {node : Node} (constructible : node.Constructible)
    (shallow : node.toJson.depth ≤ nestingLimit) :
    (∀ kept cut : String, node.jsonText = kept ++ cut → cut ≠ "" →
      ofJsonText kept = .error (.fault .ended)) ∧
    (∀ blanks : String, (∀ char ∈ blanks.toList, char ∈ blankCharacters) →
      ∃ again, ofJsonText (node.jsonText ++ blanks) = .ok again ∧ (again == node) = true) ∧
    ∀ more : String, (∃ char ∈ more.toList, char ∉ blankCharacters) →
      ofJsonText (node.jsonText ++ more) = .error (.fault .invalid) := by
  have regular := constructible.regular_throughout
  have joined (text : String) : node.jsonText ++ text =
      String.ofList (node.toJson.compact ++ text.toList) := by
    simp [jsonText]
  refine ⟨fun kept cut whole nonempty => ?_, fun blanks blank => ?_, fun more visible => ?_⟩
  · have chars : node.toJson.compact = kept.toList ++ cut.toList := by
      simpa [jsonText] using congrArg String.toList whole
    have remains : cut.toList ≠ [] := fun empty => nonempty (String.toList_eq_nil_iff.mp empty)
    simpa using ofJsonText_kept regular shallow chars remains
  · have areBlank : ∀ char ∈ blanks.toList, Scanner.isBlank char = true :=
      fun char member => Json.isBlank_iff.mpr (blank char member)
    refine ⟨node.erased, ?_, beq_iff_erased_eq.mpr (erased_erased node)⟩
    rw [joined]
    exact ofJsonText_of_spelling regular shallow ((Json.spaced_compact _).behind areBlank)
  · obtain ⟨char, member, other⟩ := visible
    rw [joined]
    exact ofJsonText_followed regular shallow
      ⟨char, member, Bool.eq_false_iff.mpr (fun blank => other (Json.isBlank_iff.mp blank))⟩

/-- A number within a tuple that is cut within its digits. -/
theorem ofJsonText_truncated_or_followed_digits :
    let node := tuple [value (.int 42)]
    let text := "\x7b\"tuple\":[\x7b\"value\":42\x7d]\x7d"
    node.Constructible ∧ node.toJson.depth ≤ nestingLimit ∧
      ofJsonText "\x7b\"tuple\":[\x7b\"value\":4" = .error (.fault .ended) ∧
      (∃ again, ofJsonText (text ++ " \n") = .ok again ∧ (again == node) = true) ∧
      ofJsonText (text ++ " ,") = .error (.fault .invalid) := by
  intro node text
  have constructible : node.Constructible := by
    refine .tuple (fun element member => ?_)
    rw [List.mem_singleton.mp member]
    exact .value _
  have shallow : node.toJson.depth ≤ nestingLimit := by decide
  have written : node.jsonText = text := by decide
  obtain ⟨cut, spaced, followed⟩ := ofJsonText_truncated_or_followed constructible shallow
  rw [written] at cut spaced followed
  exact ⟨constructible, shallow, cut _ "2\x7d]\x7d" (by decide) (by decide),
    spaced " \n" (by simp [blankCharacters]), followed " ," ⟨',', by decide, by decide⟩⟩

end Node

end SyntaxTree
