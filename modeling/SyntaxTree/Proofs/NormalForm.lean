import SyntaxTree.Proofs.Json.SpacedText
import SyntaxTree.Proofs.Observation
import SyntaxTree.Proofs.Snapshots

/-!
# Printed JSON is a normal form

The JSON that is printed for a tree reads back as the tree, but for what erasing removes, and that
is seen by none of the commands. So printing it again changes nothing, and the canonical form and
the flags that are shown of it are those of the tree it was printed for.
-/

namespace SyntaxTree

open Json (Reader)

namespace Node

/-- However the JSON of a tree is written, it is read back within the limit of nesting. -/
theorem ofJsonText_of_spelling {node : Node} (regular : node.Throughout Regular)
    (shallow : node.toJson.depth ≤ nestingLimit) {text : List Char}
    (spaced : Json.Spaced node.toJson.spelling text) :
    ofJsonText (String.ofList text) = .ok node.erased := by
  obtain ⟨built, outcome, same⟩ := build_of_regular regular
  have takes := read_reads (nestingLimit + 1) node
  rw [outcome] at takes
  rw [ofJsonText, readText, String.toList_ofList, takes.run shallow spaced, same]

theorem canonicalText_erased (node : Node) : node.erased.canonicalText = node.canonicalText := by
  rw [canonicalText, canonical_erased, canonicalText]

end Node

namespace Command

theorem describe_erased (node : Node) : describe node.erased = describe node := by
  have kind : node.erased.kind = node.kind := by
    rw [Node.kind, Node.form_erased, Form.kind_plain, Form.kind_map, Node.kind]
  have statement : node.erased.isStatement = node.isStatement := by
    rw [Node.isStatement, Node.form_erased, Form.isStatement_plain, Form.isStatement_map,
      Node.isStatement]
  have count : node.erased.walk.length = node.walk.length := by
    rw [Node.walk_erased, List.length_map]
  unfold describe
  rw [kind, statement, count, Node.isLValue_erased, Node.isRValue_erased]

theorem outcome_print_json (inputs : Inputs Id) (file : String) :
    outcome inputs (.print file true) =
      (fun node => String.ofList (node.toJson.pretty 0 ++ ['\n'])) <$> loaded inputs file := by
  simp only [outcome, run, bind, ExceptT.bind, ExceptT.run, ExceptT.mk, loaded]
  cases load inputs file <;> rfl

theorem outcome_print_json_loaded {inputs : Inputs Id} {file : String} {node : Node}
    (read : loaded inputs file = .ok node) :
    outcome inputs (.print file true) =
      .ok (String.ofList (node.toJson.pretty 0 ++ ['\n'])) := by
  rw [outcome_print_json, read]
  rfl

theorem outcome_flags_loaded {inputs : Inputs Id} {file : String} {node : Node}
    (read : loaded inputs file = .ok node) :
    outcome inputs (.flags file) = .ok (describe node) := by
  have load_eq : load inputs file = (Except.ok node : Except Failure Node) := read
  simp only [outcome, run, bind, ExceptT.bind, ExceptT.run, ExceptT.mk, load_eq]
  rfl

/-- The tree that a command is about is the one that the text of its input spells. -/
theorem loaded_of_readInput {inputs : Inputs Id} {file text : String}
    (given : ExceptT.run (readInput inputs file) = .ok text) :
    loaded inputs file = (Node.ofJsonText text).mapError .reading := by
  have content : readInput inputs file = (Except.ok text : Except Failure String) := given
  simp only [loaded, load, bind, ExceptT.bind, ExceptT.run, ExceptT.mk, content,
    ExceptT.bindCont]
  cases Node.ofJsonText text <;> rfl

/--
Printed JSON that nests within the limit, given back as an input, is printed as it is, and the
canonical form and the flags are those of the first input.
-/
theorem outcome_of_printed_json {inputs again : Inputs Id} {file copy output : String}
    (printed : outcome inputs (.print file true) = .ok output)
    (given : ExceptT.run (readInput again copy) = .ok output) :
    ∃ node line, loaded inputs file = .ok node ∧
      output = String.ofList (node.toJson.pretty 0 ++ ['\n']) ∧
      outcome inputs (.print file false) = .ok line ∧
      outcome inputs (.flags file) = .ok (describe node) ∧
      (node.toJson.depth ≤ nestingLimit →
        outcome again (.print copy true) = .ok output ∧
        outcome again (.print copy false) = .ok line ∧
        outcome again (.flags copy) = .ok (describe node)) := by
  cases read : loaded inputs file with
  | error failure =>
      rw [outcome_print_json, read] at printed
      cases printed
  | ok node =>
      rw [outcome_print_json_loaded read] at printed
      cases printed
      have regular := regular_of_loaded read
      refine ⟨node, _, rfl, rfl, outcome_print_loaded read, outcome_flags_loaded read,
        fun shallow => ?_⟩
      have lineEnd : Json.Spaced [] ['\n'] := .blank rfl .nil
      have spaced := (Json.spaced_pretty node.toJson 0).append (Json.apart_blank rfl []) lineEnd
      rw [List.append_nil] at spaced
      have readAgain : loaded again copy = .ok node.erased := by
        rw [loaded_of_readInput given, Node.ofJsonText_of_spelling regular shallow spaced]
        rfl
      constructor
      · rw [outcome_print_json_loaded readAgain, Node.toJson_erased]
      constructor
      · rw [outcome_print_loaded readAgain, Node.canonicalText_erased]
      · rw [outcome_flags_loaded readAgain, describe_erased]

/-- A loop whose data are listed and whose other branch is the sentinel, which is not printed. -/
theorem outcome_of_printed_json_sentinel :
    let text := "\x7b\"loop\": [\x7b\"tuple\":[]\x7d, \x7b\"value\": null\x7d]\x7d\n"
    let output :=
      "\x7b\n  \"loop\": \x7b\n    \"body\": \x7b\n      \"tuple\": []\n    \x7d\n  \x7d\n\x7d\n"
    outcome (filesOf text "") (.print "tree" true) = .ok output ∧
      outcome (filesOf "" output) (.print "snapshot" true) = .ok output ∧
      outcome (filesOf "" output) (.print "snapshot" false) =
        outcome (filesOf text "") (.print "tree" false) ∧
      outcome (filesOf "" output) (.flags "snapshot") =
        outcome (filesOf text "") (.flags "tree") := by
  intro text output
  let node := Node.mk none true true (.loop ⟨.mk none true true (.tuple []), none⟩)
  have lexemes : Json.lexemes text.toList =
      [.openBrace, .text (some "loop"), .colon, .openBracket,
        .openBrace, .text (some "tuple"), .colon, .openBracket, .closeBracket, .closeBrace, .comma,
        .openBrace, .text (some "value"), .colon, .null, .closeBrace,
        .closeBracket, .closeBrace] := by
    decide +kernel
  have read : Node.ofJsonText text = .ok node := by
    rw [Node.ofJsonText, readText, Json.Reader.run, lexemes]
    rfl
  have content : ExceptT.run (readInput (filesOf text "") "tree") = .ok text := readFile_eq _ _
  have load : loaded (filesOf text "") "tree" = .ok node := by
    rw [loaded_of_readInput content, read]
    rfl
  have pretty : String.ofList (node.toJson.pretty 0 ++ ['\n']) = output := rfl
  have printed : outcome (filesOf text "") (.print "tree" true) = .ok output := by
    rw [outcome_print_json_loaded load, pretty]
  have given : ExceptT.run (readInput (filesOf "" output) "snapshot") = .ok output :=
    readFile_eq _ _
  obtain ⟨same, line, found, -, shown, described, again⟩ := outcome_of_printed_json printed given
  have whole : node = same := Except.ok.inj (load.symm.trans found)
  obtain ⟨print, canonical, flags⟩ := again (by rw [← whole]; decide)
  exact ⟨printed, print, canonical.trans shown.symm, flags.trans described.symm⟩

end Command

end SyntaxTree
