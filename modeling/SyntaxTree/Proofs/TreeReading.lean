import SyntaxTree.Proofs.Constructible
import SyntaxTree.Proofs.FormReading
import SyntaxTree.Proofs.TreeEquality

/-!
# Reading a tree is building it from the leaves up

A raw tree is any tree at all: its names may be empty, its levels negative, its links wrong, and
its flags need not be those of its forms. Building it anew asks each node, after its children, to
be built from its form. Reading the JSON of the tree does just that, up to what JSON leaves out.
-/

namespace SyntaxTree

open Json (Codec Field Lexeme Reader Record)
open Json.Reader (Reads Takes)

variable {α β : Type}

/-- Writing the images of the children is writing the children as their images are written. -/
theorem Form.write_map (f : α → β) (child : Codec β) (reader : Reader α) (form : Form α) :
    (form.map f).write child = form.write ⟨reader, fun inner => child.write (f inner)⟩ := by
  cases form <;>
    simp [map, write, Record.write, Record.members, Record.codec, Field.required, Field.optional,
      Field.list, Field.defaulting, Field.nonemptyList, Codec.list, Codec.pair,
      Function.comp_def, Variable.record, Branch.record, Assignment.record, Call.record,
      Indexing.record, Loop.record, Conditional.record, Operation.record, Prototype.record,
      Switch.record, SwitchCase.record, SwitchCase.map, Block.record, FunctionLiteral.record,
      Iteration.record]

namespace Node

/-- The tree built anew, each node from its form after its children, or the first malformation. -/
def build : Node → Except Malformation Node :=
  fold (fun _ outcomes => do ofForm (← outcomes.mapM (fun outcome => outcome)))

theorem build_eq (node : Node) : node.build = node.form.mapM build >>= ofForm := by
  rw [build, fold_eq, Form.mapM_map]

theorem toJson_eq (node : Node) (reader : Reader Node) :
    node.toJson = .object [(node.kind.name, node.form.write ⟨reader, toJson⟩)] := by
  rw [toJson, fold_eq, Form.toJson, Form.kind_map, Form.write_map]
  rfl

theorem toJson_ne_null (node : Node) : node.toJson ≠ .null := by
  rw [toJson_eq node (Reader.fail (.fault .invalid))]
  exact nofun

/-- Erasing the outcomes of the children first comes to erasing the node that is built. -/
theorem ofForm_mapM_erased (outcome : Node → Except Malformation Node) (form : Form Node) :
    (Form.plain <$> form.mapM (fun child => erased <$> outcome child)) >>= ofForm =
      erased <$> (form.mapM outcome >>= ofForm) := by
  rw [Form.mapM_mapped]
  cases form.mapM outcome with
  | error cause => rfl
  | ok built => exact ofForm_erased built

/-- The last step of reading a tree, which builds its node from the form. -/
def assembled (form : Form Node) : Reader Node :=
  match ofForm form with
  | .ok node => pure node
  | .error cause => Reader.failData (.malformed cause)

theorem assembled_takes (form : Form Node) (bound : Nat) :
    (assembled form).Takes bound [] 0 (ofForm form) := by
  unfold assembled
  cases ofForm form with
  | ok node => exact Takes.done node
  | error cause => exact Takes.malformed cause

/-- Reading the JSON of a tree comes to what building it does, without tokens. -/
theorem readUpTo_reads (height : Nat) (node : Node) :
    (readUpTo height).Reads height node.toJson (erased <$> node.build) := by
  induction node using Node.induction generalizing height with
  | step node ih =>
      cases height with
      | zero =>
          exact ⟨fun _ fewer => absurd fewer (Nat.not_lt_zero _),
            fun _ fewer => absurd fewer (Nat.not_lt_zero _)⟩
      | succ height =>
          let child : Codec Node := ⟨readUpTo height, toJson⟩
          have data := Form.reads child toJson_ne_null node.form
            (fun inner member => ih inner member height)
          have object : (Reader.variant (Kind.all.map Kind.name) Kind.ofName?
              (fun _ => .error (.invalidType .bareName "newtype variant"))
              (Form.read child)).Takes (height + 1) _ _ _ :=
            Takes.variant (Kind.ofName?_name node.kind) data
          refine (object.andThen (fun form _ => assembled_takes form (height + 1))).cast ?_ ?_ ?_
          · rw [toJson_eq node (readUpTo height)]
            simp [Json.spelling, Json.memberSpellings, child]
          · rw [toJson_eq node (readUpTo height)]
            simp [Json.depth, Json.memberDepths, child]
          · rw [ofForm_mapM_erased, ← build_eq]

/-- Each level takes a bracket, so a tree is never cut short for its height. -/
theorem read_reads (bound : Nat) (node : Node) :
    read.Reads bound node.toJson (erased <$> node.build) where
  within levels _ := (readUpTo_reads (levels + 1) node).within levels (Nat.lt_succ_self levels)
  beyond levels _ := (readUpTo_reads (levels + 1) node).beyond levels (Nat.lt_succ_self levels)

/-! ### Sound trees -/

/-- A tree whose nodes are all regular is built anew as it is, but for its tokens. -/
theorem build_of_regular {node : Node} (regular : node.Throughout Regular) :
    ∃ built, node.build = .ok built ∧ built.erased = node.erased := by
  induction node using Node.induction with
  | step node ih =>
      obtain ⟨own, children⟩ := throughout_iff.mp regular
      -- A child that is not built stands for itself; regular children all are.
      let rebuilt (child : Node) : Node := child.build.toOption.getD child
      have agree : ∀ child ∈ node.form.children,
          child.build = .ok (rebuilt child) ∧ (rebuilt child).erased = child.erased := by
        intro child member
        obtain ⟨built, equal, same⟩ := ih child member (children child member)
        simp only [rebuilt, equal]
        exact ⟨rfl, same⟩
      have forms : node.form.mapM build = .ok (node.form.map rebuilt) :=
        (Form.mapM_congr (fun child member => (agree child member).1)).trans
          (Form.mapM_pure rebuilt node.form)
      have erasedForms : (node.form.map rebuilt).map erased = node.form.map erased := by
        rw [Form.map_map]
        exact Form.map_congr (fun child member => (agree child member).2)
      have outcome : erased <$> ofForm (node.form.map rebuilt) =
          .ok (ofCheckedForm node.form).erased := by
        rw [← ofForm_erased, erasedForms, ofForm_erased, ofForm_of_sound own.sound]
        rfl
      have flags : (ofCheckedForm node.form).erased = node.erased := by
        rw [erased_eq, erased_eq node, own.lvalue, own.rvalue]
        rfl
      rw [build_eq, forms]
      change ∃ built, ofForm (node.form.map rebuilt) = .ok built ∧ _
      cases built : ofForm (node.form.map rebuilt) with
      | error cause =>
          rw [built] at outcome
          cases outcome
      | ok again =>
          rw [built] at outcome
          refine ⟨again, rfl, ?_⟩
          rw [← flags]
          exact Except.ok.inj outcome

/-! ### Texts -/

/-- The compact JSON of a tree. -/
def jsonText (node : Node) : String := String.ofList node.toJson.compact

/-- No node of the tree has a token, and no case of one of its switches. -/
def Tokenless (node : Node) : Prop :=
  ∀ inner ∈ node.walk, inner.token? = none ∧
    ∀ choice, inner.form = .switch choice → ∀ arm ∈ choice.cases, arm.token = none

theorem children_erased (node : Node) : node.erased.children = node.children.map erased := by
  rw [children, form_erased, Form.children_plain, Form.children_map]
  rfl

theorem walk_erased (node : Node) : node.erased.walk = node.walk.map erased := by
  induction node using Node.induction with
  | step node ih =>
      rw [walk_eq, walk_eq node, children_erased, List.map_cons, List.flatMap_map,
        List.map_flatMap]
      refine congrArg (node.erased :: ·) ?_
      rw [List.flatMap_def, List.flatMap_def]
      exact congrArg List.flatten (List.map_congr_left ih)

theorem tokenless_erased (node : Node) : node.erased.Tokenless := by
  intro inner visited
  rw [walk_erased] at visited
  obtain ⟨origin, -, rfl⟩ := List.mem_map.mp visited
  refine ⟨by rw [erased_eq]; rfl, fun choice equal arm member => ?_⟩
  rw [form_erased] at equal
  cases form : origin.form.map erased with
  | switch other =>
      rw [form] at equal
      cases equal
      obtain ⟨original, -, rfl⟩ := List.mem_map.mp member
      rfl
  | _ =>
      rw [form] at equal
      cases equal

/-- A text that nests within the limit is read as the tree is built. -/
theorem ofJsonText_within {node : Node} (shallow : node.toJson.depth ≤ nestingLimit) :
    ofJsonText node.jsonText =
      match node.build with
      | .ok built => .ok built.erased
      | .error cause => .error (.data (.malformed cause)) := by
  have taken := (read_reads (nestingLimit + 1) node).within nestingLimit
    (Nat.lt_succ_self nestingLimit) shallow []
  rw [List.append_nil] at taken
  simp only [ofJsonText, readText, Reader.run, jsonText, String.toList_ofList,
    Json.lexemes_compact, taken]
  cases node.build <;> rfl

theorem ofJsonText_beyond {node built : Node} (deep : nestingLimit < node.toJson.depth)
    (sound : node.build = .ok built) : ofJsonText node.jsonText = .error (.fault .invalid) := by
  have taken := (read_reads (nestingLimit + 1) node).beyond nestingLimit
    (Nat.lt_succ_self nestingLimit) deep built.erased (by rw [sound]; rfl) []
  rw [List.append_nil] at taken
  simp only [ofJsonText, readText, Reader.run, jsonText, String.toList_ofList,
    Json.lexemes_compact, taken]

/--
Reading the JSON text of any raw tree within the limit of nesting does what building the tree
does: it gives an equal tree without tokens, or the first malformation from the leaves up. A tree
that was built is so read back, or refused for its depth alone.
-/
theorem ofJsonText_jsonText :
    (∀ raw : Node, raw.toJson.depth ≤ nestingLimit →
      match raw.build with
      | .ok built =>
          ∃ node, ofJsonText raw.jsonText = .ok node ∧ (node == built) = true ∧ node.Tokenless
      | .error cause => ofJsonText raw.jsonText = .error (.data (.malformed cause))) ∧
    ∀ node : Node, node.Constructible →
      (node.toJson.depth ≤ nestingLimit →
        ∃ again, ofJsonText node.jsonText = .ok again ∧ (again == node) = true ∧
          again.Tokenless) ∧
      (nestingLimit < node.toJson.depth →
        ofJsonText node.jsonText = .error (.fault .invalid)) := by
  refine ⟨fun raw shallow => ?_, fun node constructible => ?_⟩
  · have reads := ofJsonText_within shallow
    cases outcome : raw.build with
    | error cause => rw [reads, outcome]
    | ok built =>
        rw [outcome] at reads
        exact ⟨built.erased, reads, beq_iff_erased_eq.mpr (erased_erased built),
          tokenless_erased built⟩
  · obtain ⟨built, outcome, same⟩ := build_of_regular constructible.regular_throughout
    refine ⟨fun shallow => ?_, fun deep => ofJsonText_beyond deep outcome⟩
    have reads := ofJsonText_within shallow
    rw [outcome] at reads
    refine ⟨built.erased, reads, beq_iff_erased_eq.mpr ?_, tokenless_erased built⟩
    rw [erased_erased, same]

/-- An empty name within a tuple, whose text says where building the tree fails. -/
theorem ofJsonText_jsonText_empty_name :
    let unnamed := mk none true true (.var ⟨"", true⟩)
    let raw := mk none false false (.tuple [value (.int 7), unnamed])
    raw.toJson.depth ≤ nestingLimit ∧
      ofJsonText raw.jsonText = .error (.data (.malformed .emptyVariableName)) ∧
      (value (.int 7)).Constructible ∧
      ∃ again, ofJsonText (value (.int 7)).jsonText = .ok again ∧
        (again == value (.int 7)) = true ∧ again.Tokenless := by
  intro unnamed raw
  have shallow : raw.toJson.depth ≤ nestingLimit := by decide
  have constructible : (value (.int 7)).Constructible := .value _
  exact ⟨shallow, ofJsonText_jsonText.1 raw shallow, constructible,
    (ofJsonText_jsonText.2 (value (.int 7)) constructible).1 (by decide)⟩

end Node
end SyntaxTree
