import SyntaxTree.Proofs.FormSpellings
import SyntaxTree.Proofs.Json.SpacedText
import SyntaxTree.Proofs.TreeReading

/-!
# Trees are read however they are spelled

The JSON of a tree can be respelled: members of objects change places, others come among them,
fields that hold what they hold when left out are left out or not, and records become arrays. As
long as what is not skipped nests within the limit, the text is read as an equal tree.
-/

namespace SyntaxTree

open Json (Codec Manner Passage Reader Spellings)
open Json.Reader (Meets Takes)

namespace Node

/-- The ways in which a tree may be spelled, where each node is an object of its kind. -/
def spellings (manner : Manner) : Node → Spellings :=
  fold (fun _ form => .member form.kind.name (form.spellings manner))

theorem spellings_eq (manner : Manner) (node : Node) :
    node.spellings manner =
      .member node.kind.name ((node.form.map (spellings manner)).spellings manner) := by
  rw [spellings, fold_eq, Form.kind_map]
  rfl

theorem isFirm_spellings (manner : Manner) (node : Node) : (node.spellings manner).IsFirm := by
  rw [spellings_eq]
  exact Spellings.isFirm_member _ _

/-- A regular node is built again from its form, erased as its children are. -/
theorem ofForm_erased_of_regular {node : Node} (regular : Regular node) :
    ofForm (node.form.map erased).plain = .ok node.erased := by
  rw [ofForm_erased, ofForm_of_sound regular.sound]
  refine congrArg Except.ok ?_
  rw [erased_eq, erased_eq node, regular.lvalue, regular.rvalue]
  rfl

/-- Reading a node of a form that is built from it. -/
theorem readUpTo_succ_meets {manner : Manner} {node : Node} (regular : Regular node) {height : Nat}
    (children : ∀ child ∈ node.form.children, (readUpTo height).Meets height
      (child.spellings manner) child.toJson child.erased) :
    (readUpTo (height + 1)).Meets (height + 1) (node.spellings manner) node.toJson
      node.erased := by
  let child : Codec Node := ⟨readUpTo height, toJson⟩
  have data : (Form.read child node.form.kind).Meets height
      ((node.form.map (spellings manner)).spellings manner) (node.form.write child)
      (node.form.map erased).plain :=
    Form.meets (isFirm_spellings manner) manner node.form children
  have json : node.toJson = .object [(node.kind.name, node.form.write child)] :=
    toJson_eq node (readUpTo height)
  rw [spellings_eq, json]
  constructor
  · exact ⟨_, data.writes, Passage.ofJson_object _⟩
  · rintro _ ⟨inner, spelled, rfl⟩
    have object : (Reader.variant (Kind.all.map Kind.name) Kind.ofName?
        (fun _ => .error (.invalidType .bareName "newtype variant")) (Form.read child)).Takes
        (height + 1) _ _ _ := Takes.variant (Kind.ofName?_name node.kind) (data.reads inner spelled)
    have built := assembled_takes (node.form.map erased).plain (height + 1)
    rw [ofForm_erased_of_regular regular] at built
    refine (object.followed built).cast ?_ ?_ rfl
    · simp [Passage.object, Json.memberLexemes]
    · simp [Passage.object, Takes.deepest]

/-- However it is spelled, a tree of regular nodes is read as it is, but for its tokens. -/
theorem readUpTo_meets {manner : Manner} {node : Node} (regular : node.Throughout Regular)
    (height : Nat) :
    (readUpTo height).Meets height (node.spellings manner) node.toJson node.erased := by
  induction node using Node.induction generalizing height with
  | step node ih =>
      obtain ⟨own, below⟩ := throughout_iff.mp regular
      have further (height : Nat) : (readUpTo (height + 1)).Meets (height + 1)
          (node.spellings manner) node.toJson node.erased :=
        readUpTo_succ_meets own (fun child member => ih child member (below child member) height)
      cases height with
      | zero =>
          exact ⟨(further 0).writes, fun _ _ =>
            ⟨fun _ fewer => absurd fewer (Nat.not_lt_zero _),
              fun _ fewer => absurd fewer (Nat.not_lt_zero _)⟩⟩
      | succ height => exact further height

theorem read_meets {manner : Manner} {node : Node} (regular : node.Throughout Regular)
    (bound : Nat) : read.Meets bound (node.spellings manner) node.toJson node.erased where
  writes := (readUpTo_meets regular 0).writes
  reads passage spelled :=
    { within := fun levels _ => ((readUpTo_meets regular (levels + 1)).reads passage spelled).within
        levels (Nat.lt_succ_self levels)
      beyond := fun levels _ => ((readUpTo_meets regular (levels + 1)).reads passage spelled).beyond
        levels (Nat.lt_succ_self levels) }

/-- A text of one of the spellings of a tree gives the tree, within the limit of nesting. -/
theorem ofJsonText_of_spellings {manner : Manner} {node : Node}
    (regular : node.Throughout Regular) {passage : Passage}
    (spelled : node.spellings manner passage) (shallow : passage.depth ≤ nestingLimit)
    {text : String} (spaced : Json.Spaced passage.lexemes text.toList) :
    ∃ again, ofJsonText text = .ok again ∧ (again == node) = true := by
  have takes := (read_meets regular (nestingLimit + 1)).reads passage spelled
  refine ⟨node.erased, ?_, beq_iff_erased_eq.mpr (erased_erased node)⟩
  rw [ofJsonText, readText, takes.run shallow spaced]

/--
However a tree was made, it is read from every text in which all its records are objects, with
their members in any order, members of other names among them, those left out that hold what they
hold when left out, or null for what is absent, and blanks anywhere. The limit of nesting does not
count the other members.
-/
theorem Constructible.ofJsonText_of_objects {node : Node} (constructible : Constructible node) :
    node.spellings .named (.ofJson node.toJson) ∧
      ∀ passage, node.spellings .named passage → passage.depth ≤ nestingLimit →
        ∀ text : String, Json.Spaced passage.lexemes text.toList →
          ∃ again, ofJsonText text = .ok again ∧ (again == node) = true := by
  have regular := constructible.regular_throughout
  exact ⟨(read_meets regular 0).writes, fun passage spelled shallow text spaced =>
    ofJsonText_of_spellings regular spelled shallow spaced⟩

/-- A loop around a jump, whose level is left out, with a member of another name and null. -/
theorem ofJsonText_of_objects_added :
    let jump := mk none true true (.branch ⟨.leave, 0⟩)
    let node := loop jump none
    let json := Json.object [("loop", .object [("else", .null), ("note", .integer 1),
      ("body", .object [("branch", .object [("kind", .text "break")])])])]
    let text := String.ofList (json.pretty 0)
    node.Constructible ∧ ∃ passage, node.spellings .named passage ∧
      passage.depth ≤ nestingLimit ∧ Json.Spaced passage.lexemes text.toList ∧
      ∃ again, ofJsonText text = .ok again ∧ (again == node) = true := by
  intro jump node json text
  have jump_made : jump.Constructible := .branch (rfl : branch "break" (.int 0) = .ok jump)
  have made : node.Constructible :=
    .loop (List.forall_mem_cons.mpr ⟨jump_made, nofun⟩)
  let body : Passage := .object [("branch", .object [("kind", .ofJson (.text "break"))])]
  let other : String × Passage := ("else", .ofJson .null)
  let note : String × Passage := ("note", .ofJson (.integer 1))
  let passage : Passage := .object [("loop", .object [other, note, ("body", body)])]
  have jump_spelled : jump.spellings .named body :=
    ⟨_, .inl ⟨_, [], _, .written rfl (.omitted rfl .nil), nofun, .refl _, rfl⟩, rfl⟩
  have foreign : ∀ member ∈ [note], Json.Slot.Foreign
      [.required "body" (jump.spellings .named), .optional "else" none] member :=
    List.forall_mem_singleton.mpr ⟨by decide, .numeral _, rfl⟩
  have moved : [other, note, ("body", body)].Perm ([("body", body), other] ++ [note]) :=
    @List.perm_append_comm _ [other, note] [("body", body)]
  have spelled : node.spellings .named passage :=
    ⟨_, .inl ⟨_, [note], _, .written jump_spelled (.written rfl .nil), foreign, moved, rfl⟩, rfl⟩
  have shallow : passage.depth ≤ nestingLimit := by decide
  have spaced : Json.Spaced passage.lexemes text.toList := by
    rw [String.toList_ofList]
    exact Json.spaced_pretty json 0
  exact ⟨made, passage, spelled, shallow, spaced,
    (Constructible.ofJsonText_of_objects made).2 passage spelled shallow text spaced⟩

/--
However a tree was made, it is read as well from every text in which any of its records are arrays
of their fields in order, with null for what is absent, that may end where only fields are left
that hold what they hold when left out.
-/
theorem Constructible.ofJsonText_of_arrays {node : Node} (constructible : Constructible node) :
    node.spellings .either (.ofJson node.toJson) ∧
      ∀ passage, node.spellings .either passage → passage.depth ≤ nestingLimit →
        ∀ text : String, Json.Spaced passage.lexemes text.toList →
          ∃ again, ofJsonText text = .ok again ∧ (again == node) = true := by
  have regular := constructible.regular_throughout
  exact ⟨(read_meets regular 0).writes, fun passage spelled shallow text spaced =>
    ofJsonText_of_spellings regular spelled shallow spaced⟩

/-- A function without a name, as an array with null, around a jump whose array is cut off. -/
theorem ofJsonText_of_arrays_cut :
    let jump := mk none true true (.branch ⟨.leave, 0⟩)
    let node := func none [] jump
    let json := Json.object [("func", .array [.null, .array [],
      .object [("branch", .array [.text "break"])]])]
    let text := String.ofList json.compact
    node.Constructible ∧ ∃ passage, node.spellings .either passage ∧
      passage.depth ≤ nestingLimit ∧ Json.Spaced passage.lexemes text.toList ∧
      ∃ again, ofJsonText text = .ok again ∧ (again == node) = true := by
  intro jump node json text
  have jump_made : jump.Constructible := .branch (rfl : branch "break" (.int 0) = .ok jump)
  have made : node.Constructible := .func none (List.forall_mem_singleton.mpr jump_made)
  let body : Passage := .object [("branch", .array [.ofJson (.text "break")])]
  let passage : Passage := .object [("func", .array [.ofJson .null, .array [], body])]
  have jump_spelled : jump.spellings .either body :=
    ⟨_, .inr ⟨rfl, _, .written rfl (.cut (by decide)), rfl⟩, rfl⟩
  have spelled : node.spellings .either passage :=
    ⟨_, .inr ⟨rfl, _, .written rfl (.written ⟨[], .nil, rfl⟩ (.written jump_spelled (.cut nofun))),
      rfl⟩, rfl⟩
  have shallow : passage.depth ≤ nestingLimit := by decide
  have spaced : Json.Spaced passage.lexemes text.toList := by
    rw [String.toList_ofList]
    exact Json.spaced_compact json
  exact ⟨made, passage, spelled, shallow, spaced,
    (Constructible.ofJsonText_of_arrays made).2 passage spelled shallow text spaced⟩

end Node

end SyntaxTree
