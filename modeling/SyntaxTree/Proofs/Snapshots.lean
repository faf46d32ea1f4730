import SyntaxTree.Command
import SyntaxTree.Proofs.CanonicalText
import SyntaxTree.Proofs.TreeReading

/-!
# Snapshots

A snapshot is what printing a tree gives: its canonical form and one line end. Comparing takes all
line ends off the end of the snapshot, so the snapshot is that of the tree just when the canonical
form does not end in one, as it does only when a name does.
-/

namespace SyntaxTree

open Template (fill fill_append)

variable {α : Type}

namespace Text

def isLineEnd (char : Char) : Bool := char == '\n' || char == '\r'

def endsInLineEnd (text : List Char) : Bool := text.getLast?.any isLineEnd

theorem endsInLineEnd_concat (text : List Char) (char : Char) :
    endsInLineEnd (text ++ [char]) = isLineEnd char := by
  simp [endsInLineEnd]

theorem endsInLineEnd_append (text : List Char) {rest : List Char} (nonempty : rest ≠ []) :
    endsInLineEnd (text ++ rest) = endsInLineEnd rest := by
  rw [endsInLineEnd, endsInLineEnd, List.getLast?_append,
    List.getLast?_eq_some_getLast nonempty, Option.some_or]

/-- A text in which no character ends a line. -/
theorem endsInLineEnd_of_chars {text : List Char}
    (chars : ∀ char ∈ text, isLineEnd char = false) : endsInLineEnd text = false := by
  rw [endsInLineEnd]
  cases last : text.getLast? with
  | none => rfl
  | some char => exact chars char (List.mem_of_getLast? last)

end Text

/-- What is taken off is one line end just when the text before it does not end in another. -/
theorem Command.trimLineEnds_concat (text : List Char) :
    trimLineEnds (text ++ ['\n']) = text ↔ Text.endsInLineEnd text = false := by
  have trimmed : trimLineEnds (text ++ ['\n']) =
      (text.reverse.dropWhile Text.isLineEnd).reverse := by
    rw [trimLineEnds, List.reverse_append]
    rfl
  rw [trimmed, List.reverse_eq_iff, Text.endsInLineEnd, ← List.head?_reverse]
  cases text.reverse with
  | nil => simp
  | cons last front =>
      cases ends : Text.isLineEnd last with
      | false => simp [ends]
      | true =>
          have shorter := (List.dropWhile_sublist Text.isLineEnd (l := front)).length_le
          simp only [List.dropWhile_cons, ends, if_true, List.head?_cons, Option.any_some]
          constructor
          · intro same
            rw [same, List.length_cons] at shorter
            omega
          · exact nofun

/-! ### How canonical forms end -/

theorem Json.isLineEnd_of_isNumeralChar {char : Char} (numeral : isNumeralChar char = true) :
    Text.isLineEnd char = false := by
  cases ends : Text.isLineEnd char with
  | false => rfl
  | true =>
      simp only [Text.isLineEnd, Bool.or_eq_true, beq_iff_eq] at ends
      rcases ends with rfl | rfl <;> cases numeral

theorem Literal.endsInLineEnd_canonical (literal : Literal) :
    Text.endsInLineEnd literal.canonical = false := by
  rcases literal.word_cases with ⟨value, rfl⟩ | known | infinite | ⟨numeral, scans⟩
  · exact Text.endsInLineEnd_concat ('"' :: _) '"'
  · have table : ∀ name ∈ Text.valueWords.map String.toList, Text.endsInLineEnd name = false := by
      decide
    exact table _ known
  · rw [infinite]
    rfl
  · apply Text.endsInLineEnd_of_chars
    exact fun char member => Json.isLineEnd_of_isNumeralChar (scans.chars char member)

theorem Variable.endsInLineEnd_canonical (reference : Variable) :
    Text.endsInLineEnd reference.canonical =
      (!reference.isMutable && Text.endsInLineEnd reference.name.toList) := by
  obtain ⟨name, isMutable⟩ := reference
  cases isMutable with
  | true => exact Text.endsInLineEnd_concat name.toList '!'
  | false => simp [canonical]

/-- A list ends in its closing parenthesis. -/
theorem Item.endsInLineEnd_listTemplate (write : α → List Char) {items : List (Item α)}
    (nonempty : items ≠ []) : Text.endsInLineEnd (fill write (listTemplate items)) = false := by
  have group (listed : List (Item α)) :
      ∃ front, template (.group listed) = front ++ [.char ')'] := ⟨.char '(' :: _, rfl⟩
  cases items with
  | nil => exact absurd rfl nonempty
  | cons first rest =>
      have closed : ∃ front, listTemplate (first :: rest) = front ++ [.char ')'] := by
        rw [listTemplate]
        split
        · obtain ⟨front, equal⟩ := group rest
          exact ⟨.char ' ' :: front, congrArg (.char ' ' :: ·) equal⟩
        · exact group (first :: rest)
      obtain ⟨front, equal⟩ := closed
      rw [equal, fill_append]
      exact Text.endsInLineEnd_concat _ ')'

namespace Form

/-- Whether the text of a form ends in a line end, given which of its children's do. -/
def endsInLineEnd : Form Bool → Bool
  | .var reference => !reference.isMutable && Text.endsInLineEnd reference.name.toList
  | .spread inner => inner
  | _ => false

theorem endsInLineEnd_fill (write : α → List Char) {form : Form α}
    (written : ∀ child ∈ form.children, write child ≠ []) :
    Text.endsInLineEnd (fill write form.template) =
      (form.map (fun child => Text.endsInLineEnd (write child))).endsInLineEnd := by
  have listed (some_items : form.items ≠ []) :
      Text.endsInLineEnd (fill write (Item.listTemplate form.items)) = false :=
    Item.endsInLineEnd_listTemplate write some_items
  cases form with
  | value literal =>
      rw [template, Template.fill_ofText]
      exact literal.endsInLineEnd_canonical
  | var reference =>
      rw [template, Template.fill_ofText]
      exact reference.endsInLineEnd_canonical
  | spread inner =>
      have nonempty := written inner (List.mem_singleton_self inner)
      simp only [template, fill, List.append_nil]
      exact Text.endsInLineEnd_append ['.', '.', '.'] nonempty
  | _ => exact listed (List.cons_ne_nil _ _)

end Form

namespace Node

/-- The tree is a variable that cannot be assigned again and whose name ends in a line end, or a
spread of such a tree. -/
def endsInLineEnd : Node → Bool := fold (fun _ form => form.endsInLineEnd)

theorem endsInLineEnd_canonicalText {node : Node} (regular : node.Throughout Regular) :
    Text.endsInLineEnd node.canonicalText = node.endsInLineEnd := by
  induction node using Node.induction with
  | step node ih =>
      have below := (throughout_iff.mp regular).2
      rw [(canonical_of_regular regular).2.1, endsInLineEnd, fold_eq, ← endsInLineEnd,
        Form.endsInLineEnd_fill]
      · rw [Form.map_congr (fun child member => ih child member (below child member))]
      · exact fun child member => (canonical_of_regular (below child member)).2.2

end Node

/-! ### Printing and comparing -/

namespace Command

/-- What a command gives where reading has no effect. -/
def outcome (inputs : Inputs Id) (command : Command) : Except Failure String :=
  ExceptT.run (command.run inputs)

/-- The tree that a command is about. -/
def loaded (inputs : Inputs Id) (file : String) : Except Failure Node :=
  ExceptT.run (load inputs file)

theorem loaded_congr {inputs again : Inputs Id} {file : String}
    (standard : again.standard = inputs.standard) (input : again.file file = inputs.file file) :
    loaded again file = loaded inputs file := by
  simp only [loaded, load, readInput, readFile, standard, input]

theorem mapError_ok {ε δ α : Type} (f : ε → δ) (value : α) :
    Except.mapError f (.ok value) = .ok value := rfl

theorem readFile_eq (inputs : Inputs Id) (file : String) :
    ExceptT.run (readFile inputs file) = Except.mapError .unreadable (inputs.file file) := by
  unfold readFile
  simp only [bind, ExceptT.bind, ExceptT.run, ExceptT.mk, liftM, monadLift, MonadLift.monadLift,
    ExceptT.lift, Functor.map]
  generalize inputs.file file = content
  cases content <;> rfl

theorem regular_of_loaded {inputs : Inputs Id} {file : String} {node : Node}
    (read : loaded inputs file = .ok node) : node.Throughout Node.Regular := by
  simp only [loaded, load, bind, ExceptT.bind, ExceptT.run, ExceptT.mk] at read
  cases taken : readInput inputs file with
  | error failure =>
      rw [taken] at read
      cases read
  | ok text =>
      rw [taken] at read
      simp only [ExceptT.bindCont] at read
      cases outcome : Node.ofJsonText text with
      | error cause =>
          rw [outcome] at read
          cases read
      | ok other =>
          rw [outcome] at read
          cases read
          exact (Node.Constructible.of_ofJsonText outcome).regular_throughout

theorem outcome_print (inputs : Inputs Id) (file : String) :
    outcome inputs (.print file false) = (do
      let node ← loaded inputs file
      let text ← node.canonical.mapError .printing
      return String.ofList (text ++ ['\n'])) := by
  simp only [outcome, run, bind, ExceptT.bind, ExceptT.run, ExceptT.mk, loaded, canonical]
  cases load inputs file with
  | error failure => rfl
  | ok node =>
      simp only [Except.bind, ExceptT.bindCont]
      cases node.canonical <;> rfl

theorem outcome_check (inputs : Inputs Id) (file snapshot : String) :
    outcome inputs (.check file snapshot) = (do
      let node ← loaded inputs file
      let actual ← node.canonical.mapError .printing
      let text ← Except.mapError .unreadable (inputs.file snapshot)
      let expected := trimLineEnds text.toList
      if actual = expected then return "" else throw (.mismatch file expected actual)) := by
  rw [← readFile_eq]
  simp only [outcome, run, bind, ExceptT.bind, ExceptT.run, ExceptT.mk, loaded, canonical]
  cases load inputs file with
  | error failure => rfl
  | ok node =>
      simp only [Except.bind, ExceptT.bindCont]
      cases node.canonical with
      | error cause => rfl
      | ok actual =>
          simp only [pure, ExceptT.pure, mapError_ok, ExceptT.mk]
          cases readFile inputs snapshot with
          | error failure => rfl
          | ok text =>
              dsimp only
              split <;> rfl

theorem outcome_print_loaded {inputs : Inputs Id} {file : String} {node : Node}
    (read : loaded inputs file = .ok node) :
    outcome inputs (.print file false) = .ok (String.ofList (node.canonicalText ++ ['\n'])) := by
  have written := (Node.canonical_of_regular (regular_of_loaded read)).1
  rw [outcome_print]
  simp only [read, written, bind, Except.bind, mapError_ok]
  rfl

/-- Comparing with a snapshot of a line is comparing with the line, without its line ends. -/
theorem outcome_check_loaded {inputs : Inputs Id} {file snapshot : String} {node : Node}
    {line : List Char} (read : loaded inputs file = .ok node)
    (stored : inputs.file snapshot = .ok (String.ofList line)) :
    outcome inputs (.check file snapshot) =
      if node.canonicalText = trimLineEnds line then .ok ""
      else .error (.mismatch file (trimLineEnds line) node.canonicalText) := by
  have written := (Node.canonical_of_regular (regular_of_loaded read)).1
  rw [outcome_check]
  simp only [read, stored, written, bind, Except.bind, mapError_ok, String.toList_ofList]
  split <;> rfl

/--
A tree that was printed is the same as the snapshot of what was printed just when its text does
not end in a line end of its own.
-/
theorem outcome_check_of_print {inputs again : Inputs Id} {file snapshot output : String}
    (printed : outcome inputs (.print file false) = .ok output)
    (standard : again.standard = inputs.standard) (input : again.file file = inputs.file file)
    (stored : again.file snapshot = .ok output) :
    ∃ node, loaded inputs file = .ok node ∧
      output = String.ofList (node.canonicalText ++ ['\n']) ∧
      (outcome again (.check file snapshot) = .ok "" ↔ node.endsInLineEnd = false) ∧
      (node.endsInLineEnd = true → outcome again (.check file snapshot) =
        .error (.mismatch file (trimLineEnds (node.canonicalText ++ ['\n']))
          node.canonicalText)) := by
  cases read : loaded inputs file with
  | error failure =>
      rw [outcome_print, read] at printed
      cases printed
  | ok node =>
      rw [outcome_print_loaded read] at printed
      cases printed
      have checked := outcome_check_loaded ((loaded_congr standard input).trans read) stored
      have trimmed := trimLineEnds_concat node.canonicalText
      rw [Node.endsInLineEnd_canonicalText (regular_of_loaded read)] at trimmed
      refine ⟨node, rfl, rfl, ?_, ?_⟩
      · rw [checked, ← trimmed]
        constructor
        · intro accepted
          split at accepted
          · rename_i same
            exact same.symm
          · cases accepted
        · intro same
          rw [if_pos same.symm]
      · intro ends
        rw [checked, if_neg]
        intro same
        rw [trimmed.mp same.symm] at ends
        cases ends

/-- Inputs of a tree and a snapshot. -/
def filesOf (tree snapshot : String) : Inputs Id where
  standard := .error .notFound
  file name := if name = "tree" then .ok tree else .ok snapshot

theorem loaded_filesOf {node : Node} (shallow : node.toJson.depth ≤ nestingLimit)
    (built : node.build = .ok node) (tokenless : node.erased = node) (snapshot : String) :
    loaded (filesOf node.jsonText snapshot) "tree" = .ok node := by
  have read := Node.ofJsonText_within shallow
  rw [built] at read
  simp only [tokenless] at read
  have named : "tree" ≠ "-" := by decide
  have content : readFile (filesOf node.jsonText snapshot) "tree" =
      (Except.ok node.jsonText : Except Failure String) := readFile_eq _ _
  simp only [loaded, load, readInput, if_neg named, bind, ExceptT.bind, ExceptT.run, ExceptT.mk,
    content, ExceptT.bindCont, read]
  rfl

/-- A name that ends in a line end, before the mark of a variable that can be assigned again. -/
theorem outcome_check_of_print_mutable :
    let node := Node.mk none true true (.var ⟨"a\n", true⟩)
    let output := String.ofList ['a', '\n', '!', '\n']
    outcome (filesOf node.jsonText "") (.print "tree" false) = .ok output ∧
      outcome (filesOf node.jsonText output) (.check "tree" "snapshot") = .ok "" := by
  intro node output
  have read : ∀ snapshot, loaded (filesOf node.jsonText snapshot) "tree" = .ok node :=
    loaded_filesOf (by decide) rfl rfl
  have printed : outcome (filesOf node.jsonText "") (.print "tree" false) = .ok output :=
    outcome_print_loaded (read "")
  have standard : (filesOf node.jsonText output).standard =
      (filesOf node.jsonText "").standard := rfl
  have input : (filesOf node.jsonText output).file "tree" =
      (filesOf node.jsonText "").file "tree" := rfl
  have stored : (filesOf node.jsonText output).file "snapshot" = .ok output := rfl
  obtain ⟨same, found, -, accepted, -⟩ := outcome_check_of_print printed standard input stored
  have whole : node = same := Except.ok.inj ((read "").symm.trans found)
  have ends : same.endsInLineEnd = false := by
    rw [← whole]
    rfl
  exact ⟨printed, accepted.mpr ends⟩

/-- The same name without the mark. The snapshot is refused, since it loses the end of the name. -/
theorem outcome_check_immutable :
    let node := Node.mk none true true (.var ⟨"a\n", false⟩)
    let output := String.ofList ['a', '\n', '\n']
    outcome (filesOf node.jsonText "") (.print "tree" false) = .ok output ∧
      outcome (filesOf node.jsonText output) (.check "tree" "snapshot") =
        .error (.mismatch "tree" ['a'] ['a', '\n']) := by
  intro node output
  have read : ∀ snapshot, loaded (filesOf node.jsonText snapshot) "tree" = .ok node :=
    loaded_filesOf (by decide) rfl rfl
  have stored : (filesOf node.jsonText output).file "snapshot" = .ok output := rfl
  exact ⟨outcome_print_loaded (read ""), outcome_check_loaded (read output) stored⟩

end Command

end SyntaxTree
