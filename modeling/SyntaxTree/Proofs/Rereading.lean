import SyntaxTree.Proofs.Json.Nesting
import SyntaxTree.Proofs.TreeReading

/-!
# Reading a tree again

A tree that was read is written within the levels it was read in, once empty lists are not counted:
what is left out of the text and what is dropped from the tree can only make it shallower, and lists
that are written though they were left out are empty. So its text is read again unless an empty list
stands at the first level past the limit.
-/

namespace SyntaxTree

open Json (Codec Reader Record)
open Json.Codec (Contained)
open Json.Field (defaulting_contained list_contained nonemptyList_contained optional_contained
  required_contained)

/-! ### Literals -/

theorem Binary64.isFinite_of_ofDecimal? {negative : Bool} {decimal : Decimal} {real : Binary64}
    (read : ofDecimal? negative decimal = some real) : real.isFinite = true := by
  have bounded {magnitude : Nat} (made : ofMagnitude? negative magnitude = some real) :
      real.isFinite = true := by
    unfold ofMagnitude? at made
    split at made
    · rename_i finite
      cases made
      have small : magnitude < 2 ^ 63 := Nat.lt_trans finite (by decide)
      simpa [isFinite, Nat.mod_eq_of_lt small] using finite
    · cases made
  unfold ofDecimal? at read
  split at read
  · exact bounded read
  · split at read <;> split at read
    · cases read
    · exact bounded read
    · exact bounded read
    · exact bounded read

theorem Literal.filledDepth_toJson_le (literal : Literal) : literal.toJson.filledDepth ≤ 1 := by
  cases literal with
  | real value =>
      simp only [toJson]
      split <;> simp [Json.filledDepth, Json.filledMemberDepths]
  | _ => exact Nat.zero_le 1

/-- A number that is finite is written as one scalar. -/
theorem Literal.filledDepth_toJson_real {value : Binary64} (finite : value.isFinite = true) :
    (Literal.real value).toJson.filledDepth = 0 := by
  simp [toJson, finite, Json.filledDepth]

theorem Literal.filledDepth_of_numeral {numeral : Json.Numeral} {value : Json} {literal : Literal}
    (valued : numeral.value? = some value) (spells : ofJson value = .ok literal) :
    literal.toJson.filledDepth = 0 := by
  have whole {integer : Int} (spells : ofJson (.integer integer) = .ok literal) :
      literal.toJson.filledDepth = 0 := by
    simp only [ofJson] at spells
    split at spells
    · cases spells
      rfl
    · split at spells
      · rename_i read
        cases spells
        exact filledDepth_toJson_real (Binary64.isFinite_of_ofDecimal? read)
      · cases spells
  unfold Json.Numeral.value? at valued
  dsimp only at valued
  split at valued
  · cases valued
    exact whole spells
  · split at valued
    · cases valued
      exact whole spells
    · obtain ⟨real, read, rfl⟩ := Option.map_eq_some_iff.mp valued
      cases spells
      exact filledDepth_toJson_real (Binary64.isFinite_of_ofDecimal? read)

/-- Only a literal that is read from an array or an object may be written as an object. -/
theorem Literal.contained : Literal.codec.Contained := by
  intro levels
  have spelled : Reader.any.Yields levels (fun json => ∀ literal,
      Literal.ofJson json = .ok literal → literal.toJson.filledDepth ≤ levels) := by
    intro lexemes json rest taken literal spells
    have bracketed {reader : Reader Json}
        (opened : ∃ after, Reader.nested reader levels after = .ok (json, rest)) :
        literal.toJson.filledDepth ≤ levels := by
      obtain ⟨after, opened⟩ := opened
      cases levels with
      | zero => cases opened
      | succ inner => exact Nat.le_trans literal.filledDepth_toJson_le (Nat.le_add_left 1 inner)
    simp only [Reader.any, Reader.anyUpTo] at taken
    split at taken
    · cases taken
    · cases taken; cases spells
      exact Nat.zero_le _
    · cases taken; cases spells
      exact Nat.zero_le _
    · split at taken
      · rename_i valued
        cases taken
        rw [filledDepth_of_numeral valued spells]
        exact Nat.zero_le _
      · cases taken
    · cases taken; cases spells
      exact Nat.zero_le _
    · exact bracketed ⟨_, taken⟩
    · exact bracketed ⟨_, taken⟩
    · cases taken
    · cases taken
  refine spelled.andThen (fun json fits => ?_)
  cases spells : Literal.ofJson json with
  | ok literal => exact Reader.Yields.done (fits literal spells)
  | error error => exact Reader.Yields.failing _

/-! ### Forms -/

theorem Json.text_contained : Codec.text.Contained := .of_flat (fun _ => rfl)

theorem Variable.record_contained : Variable.record.codec.Contained := by
  apply Variable.record.contained (fun _ => rfl)
  simp only [Variable.record, List.forall_mem_cons]
  exact ⟨required_contained Json.text_contained,
    defaulting_contained (.of_flat (fun _ => rfl)) rfl, List.forall_mem_nil _⟩

theorem Branch.record_contained : Branch.record.codec.Contained := by
  apply Branch.record.contained (fun _ => rfl)
  simp only [Branch.record, List.forall_mem_cons]
  exact ⟨required_contained (.of_flat (fun _ => rfl)),
    defaulting_contained (.of_flat (fun _ => rfl)) rfl, List.forall_mem_nil _⟩

section Children

variable {α : Type} {child : Codec α}

theorem SwitchCase.record_contained (contained : child.Contained) :
    (SwitchCase.record child).codec.Contained := by
  apply (SwitchCase.record child).contained (fun _ => rfl)
  simp only [SwitchCase.record, List.forall_mem_cons]
  exact ⟨required_contained Json.text_contained, optional_contained contained,
    required_contained contained, optional_contained (.of_flat (fun _ => rfl)), List.forall_mem_nil _⟩

namespace Form

/-- The data of a form is written within the levels it was read in. -/
theorem read_contained (contained : child.Contained) (kind : Kind) (levels : Nat) :
    (Form.read child kind).Yields levels
      (fun form => (form.write child).filledDepth ≤ levels) := by
  have made {σ : Type} {codec : Codec σ} (make : σ → Form α) (inside : codec.Contained)
      (writes : ∀ data, (make data).write child = codec.write data) :
      (make <$> codec.read).Yields levels (fun form => (form.write child).filledDepth ≤ levels) :=
    (inside levels).map (fun data within => (writes data).symm ▸ within)
  have record {σ : Type} (record : Record σ) (make : σ → Form α)
      (keeps : ∀ values, record.parts (record.assemble values) = values)
      (writes : ∀ data, (make data).write child = record.write data)
      (fields : ∀ field ∈ record.fields, field.Contained) :
      (make <$> record.read).Yields levels (fun form => (form.write child).filledDepth ≤ levels) :=
    made make (record.contained keeps fields) writes
  have required {name : String} : (Json.Field.required name child).Contained :=
    required_contained contained
  have optional {name : String} : (Json.Field.optional name child).Contained :=
    optional_contained contained
  have list {name : String} : (Json.Field.list name child).Contained := list_contained contained
  have group {name : String} : (Json.Field.nonemptyList name child).Contained :=
    nonemptyList_contained contained
  have name {key : String} : (Json.Field.optional key Codec.text).Contained :=
    optional_contained Json.text_contained
  have block (make : Block α → Form α)
      (writes : ∀ data, (make data).write child = (Block.record child).write data) :
      (make <$> (Block.record child).read).Yields levels
        (fun form => (form.write child).filledDepth ≤ levels) := by
    apply record (Block.record child) make (fun _ => rfl) writes
    simp only [Block.record, List.forall_mem_cons]
    exact ⟨list, nonemptyList_contained Variable.record_contained, List.forall_mem_nil _⟩
  cases kind with
  | value => exact made .value Literal.contained (fun _ => rfl)
  | var => exact made .var Variable.record_contained (fun _ => rfl)
  | branch => exact made .branch Branch.record_contained (fun _ => rfl)
  | imports => exact made .imports Json.text_contained (fun _ => rfl)
  | spread => exact made .spread contained (fun _ => rfl)
  | returns => exact made .returns contained (fun _ => rfl)
  | tuple => exact made .tuple contained.list (fun _ => rfl)
  | format => exact made .format contained.list (fun _ => rfl)
  | object => exact made .object (contained.pair contained).list (fun _ => rfl)
  | block => exact block .block (fun _ => rfl)
  | prog => exact block .prog (fun _ => rfl)
  | assign =>
      apply record (Assignment.record child) .assign (fun _ => rfl) (fun _ => rfl)
      simp only [Assignment.record, List.forall_mem_cons]
      exact ⟨required, required, name, List.forall_mem_nil _⟩
  | call =>
      apply record (Call.record child) .call (fun _ => rfl) (fun _ => rfl)
      simp only [Call.record, List.forall_mem_cons]
      exact ⟨required, list, List.forall_mem_nil _⟩
  | index =>
      apply record (Indexing.record child) .index (fun _ => rfl) (fun _ => rfl)
      simp only [Indexing.record, List.forall_mem_cons]
      exact ⟨required, list, List.forall_mem_nil _⟩
  | loop =>
      apply record (Loop.record child) .loop (fun _ => rfl) (fun _ => rfl)
      simp only [Loop.record, List.forall_mem_cons]
      exact ⟨required, optional, List.forall_mem_nil _⟩
  | cond =>
      apply record (Conditional.record child) .cond (fun _ => rfl) (fun _ => rfl)
      simp only [Conditional.record, List.forall_mem_cons]
      exact ⟨optional, optional, optional, List.forall_mem_nil _⟩
  | op =>
      apply record (Operation.record child) .op (fun _ => rfl) (fun _ => rfl)
      simp only [Operation.record, List.forall_mem_cons]
      exact ⟨required_contained Json.text_contained, list, List.forall_mem_nil _⟩
  | proto =>
      apply record (Prototype.record child) .proto (fun _ => rfl) (fun _ => rfl)
      simp only [Prototype.record, List.forall_mem_cons]
      exact ⟨name, optional, group, group, group, List.forall_mem_nil _⟩
  | switch =>
      apply record (Switch.record child) .switch (fun _ => rfl) (fun _ => rfl)
      simp only [Switch.record, List.forall_mem_cons]
      exact ⟨required, list_contained (SwitchCase.record_contained contained), optional, optional,
        optional, List.forall_mem_nil _⟩
  | func =>
      apply record (FunctionLiteral.record child) .func (fun _ => rfl) (fun _ => rfl)
      simp only [FunctionLiteral.record, List.forall_mem_cons]
      exact ⟨name, list, required, List.forall_mem_nil _⟩
  | forEach =>
      apply record (Iteration.record child) .forEach (fun _ => rfl) (fun _ => rfl)
      simp only [Iteration.record, List.forall_mem_cons]
      exact ⟨required, required, required, optional, optional, List.forall_mem_nil _⟩

/-- Dropping sentinels only takes members away. -/
theorem filledDepth_write_dropSentinels (isSentinel : α → Bool) (form : Form α) :
    ((form.dropSentinels isSentinel).write child).filledDepth ≤
      (form.write child).filledDepth := by
  have kept_among {name : String} {clause : Option α} {member : String × Json}
      (inside : member ∈ ((dropSentinels.kept isSentinel clause).map child.write).toList.map
        (name, ·)) : member ∈ (clause.map child.write).toList.map (name, ·) := by
    cases clause with
    | none => exact inside
    | some inner =>
        cases sentinel : isSentinel inner <;>
          simp_all [dropSentinels.kept, Option.filter]
  cases form with
  | loop repetition =>
      apply Json.filledDepth_object_mono
      simp only [Loop.record, Record.members, Json.Field.optional, List.mem_append]
      grind
  | cond conditional =>
      apply Json.filledDepth_object_mono
      simp only [Conditional.record, Record.members, Json.Field.optional, List.mem_append]
      grind
  | switch choice =>
      apply Json.filledDepth_object_mono
      simp only [Switch.record, Record.members, Json.Field.optional, List.mem_append]
      grind
  | forEach iteration =>
      apply Json.filledDepth_object_mono
      simp only [Iteration.record, Record.members, Json.Field.optional, List.mem_append]
      grind
  | _ => exact Nat.le_refl _

end Form

end Children

/-! ### Trees -/

namespace Node

theorem filledDepth_of_ofForm {form : Form Node} {node : Node} (built : ofForm form = .ok node)
    (reader : Reader Node) {levels : Nat}
    (within : (form.write ⟨reader, toJson⟩).filledDepth ≤ levels) :
    node.toJson.filledDepth ≤ levels + 1 := by
  obtain ⟨rfl, -⟩ := form_of_ofForm built
  rw [toJson_eq _ reader]
  apply Json.filledDepth_object_le_iff.mpr
  rw [List.forall_mem_singleton]
  exact Nat.le_trans (Form.filledDepth_write_dropSentinels isSentinel form) within

theorem readUpTo_contained (height : Nat) : Contained ⟨readUpTo height, toJson⟩ := by
  induction height with
  | zero => exact fun levels => Reader.Yields.failing _
  | succ height ih =>
      intro levels
      have data : (Reader.variant (Kind.all.map Kind.name) Kind.ofName?
          (fun _ => .error (.invalidType .bareName "newtype variant"))
          (Form.read ⟨readUpTo height, toJson⟩)).Yields levels
            (fun form => (form.write ⟨readUpTo height, toJson⟩).filledDepth < levels) := by
        refine Reader.Yields.variant nofun (fun inner fewer kind => ?_)
        refine (Form.read_contained ih kind inner).mono (fun form within => ?_)
        omega
      refine data.andThen (fun form within => ?_)
      cases built : ofForm form with
      | error cause => exact Reader.Yields.failing _
      | ok node =>
          obtain ⟨inner, rfl⟩ : ∃ inner, levels = inner + 1 :=
            Nat.exists_eq_succ_of_ne_zero (by omega)
          exact Reader.Yields.done
            (filledDepth_of_ofForm built (readUpTo height) (Nat.le_of_lt_succ within))

/-- A tree is written within the levels it was read in, but for empty lists. -/
theorem filledDepth_of_ofJsonText {text : String} {node : Node} (read : ofJsonText text = .ok node) :
    node.toJson.filledDepth ≤ nestingLimit := by
  unfold ofJsonText readText Reader.run at read
  split at read
  · cases read
  · rename_i taken
    cases read
    exact readUpTo_contained (nestingLimit + 1) nestingLimit taken
  · cases read

/--
The text written for a tree that was read nests within the limit but for empty lists. It is read
again, as an equal tree, exactly when no empty list stands past the limit, and is refused for its
depth otherwise.
-/
theorem ofJsonText_again {text : String} {node : Node} (read : ofJsonText text = .ok node) :
    node.toJson.filledDepth ≤ nestingLimit ∧
      (node.toJson.depth ≤ nestingLimit →
        ∃ again, ofJsonText node.jsonText = .ok again ∧ (again == node) = true) ∧
      (nestingLimit < node.toJson.depth →
        node.toJson.depth = nestingLimit + 1 ∧
          ofJsonText node.jsonText = .error (.fault .invalid)) := by
  have filled := filledDepth_of_ofJsonText read
  obtain ⟨built, outcome, same⟩ :=
    build_of_regular (Constructible.of_ofJsonText read).regular_throughout
  constructor
  · exact filled
  constructor
  · intro shallow
    have reads := ofJsonText_within shallow
    rw [outcome] at reads
    refine ⟨built.erased, reads, beq_iff_erased_eq.mpr ?_⟩
    rw [erased_erased, same]
  · intro deep
    have oneMore := Json.depth_le_filledDepth node.toJson
    constructor
    · omega
    · exact ofJsonText_beyond deep outcome

/-- The text of an operation without a list of operands, under so many spreads. -/
def operationUnder (spreads : Nat) : List Char :=
  (List.replicate spreads "\x7b\"spread\":".toList).flatten ++
    "\x7b\"op\":\x7b\"op\":\"+\"\x7d\x7d".toList ++ List.replicate spreads '\x7d'

theorem exists_ofJsonText_of_depth {text : List Char} {depth : Nat}
    (read : (Node.read.run nestingLimit text).toOption.map (·.toJson.depth) = some depth) :
    ∃ node, ofJsonText (String.ofList text) = .ok node ∧ node.toJson.depth = depth := by
  rw [ofJsonText, readText, String.toList_ofList]
  cases taken : Node.read.run nestingLimit text with
  | error error =>
      rw [taken] at read
      cases read
  | ok node =>
      rw [taken] at read
      exact ⟨node, rfl, Option.some.inj read⟩

/-- The list of operands that is written stands at the last level within the limit. -/
theorem ofJsonText_again_at_limit :
    ∃ node, ofJsonText (String.ofList (operationUnder 124)) = .ok node ∧
      node.toJson.depth = nestingLimit ∧
      ∃ again, ofJsonText node.jsonText = .ok again ∧ (again == node) = true := by
  have taken : (Node.read.run nestingLimit (operationUnder 124)).toOption.map (·.toJson.depth) =
      some nestingLimit := by decide +kernel
  obtain ⟨node, read, depth⟩ := exists_ofJsonText_of_depth taken
  exact ⟨node, read, depth, (ofJsonText_again read).2.1 (Nat.le_of_eq depth)⟩

/-- With one more spread it stands past the limit. -/
theorem exists_ofJsonText_refused_again :
    ∃ node, ofJsonText (String.ofList (operationUnder 125)) = .ok node ∧
      ofJsonText node.jsonText = .error (.fault .invalid) := by
  have taken : (Node.read.run nestingLimit (operationUnder 125)).toOption.map (·.toJson.depth) =
      some (nestingLimit + 1) := by decide +kernel
  obtain ⟨node, read, depth⟩ := exists_ofJsonText_of_depth taken
  obtain ⟨built, outcome, -⟩ :=
    build_of_regular (Constructible.of_ofJsonText read).regular_throughout
  exact ⟨node, read, ofJsonText_beyond (by omega) outcome⟩

end Node

end SyntaxTree
