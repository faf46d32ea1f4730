import SyntaxTree.Interchange
import SyntaxTree.Proofs.OptionalClauses
import SyntaxTree.Proofs.TrimmedRecords

/-!
# Forms are read alike without vacant clauses

Reading the data of a form overlooks vacant clauses as soon as reading its children does: the forms
that are read differ at most in clauses that are vacant in both. Only the optional clauses may be
vacant. A sentinel in the place of any other child is read as that child.
-/

namespace SyntaxTree

open Json (Codec Field Overlooking Phrase Reader Record)

/-! ### Literals -/

namespace Literal

/-- Trimming makes no text of what is none, nor another of a text. -/
theorem json?_trimmed_text (layout : Layout) (phrase : Phrase) (content : String) :
    (phrase.trimmed layout).json? = some (.text content) ↔ phrase.json? = some (.text content) := by
  cases phrase with
  | array elements => simp [Phrase.trimmed, Phrase.json?]
  | object members => simp [Phrase.trimmed, Phrase.json?]
  | _ => rfl

/-- Around a value, a literal only looks whether it is a text. -/
theorem ofJson_around {value other : Json} (name : String)
    (same : ∀ content, value = .text content ↔ other = .text content) :
    ofJson (.array [value]) = ofJson (.array [other]) ∧
      ofJson (.object [(name, value)]) = ofJson (.object [(name, other)]) := by
  have array_of_no_text {value : Json} (none : ∀ content, value ≠ .text content) :
      ofJson (.array [value]) = .error .noLiteral := by
    unfold ofJson
    split <;> simp_all
  have object_of_no_text {value : Json} (none : ∀ content, value ≠ .text content) :
      ofJson (.object [(name, value)]) = .error .noLiteral := by
    unfold ofJson
    split <;> simp_all
  by_cases text : ∃ content, value = .text content
  · obtain ⟨content, rfl⟩ := text
    rw [(same content).mp rfl]
    exact ⟨rfl, rfl⟩
  · have none (content : String) : value ≠ .text content := fun equal => text ⟨content, equal⟩
    have none_other (content : String) : other ≠ .text content :=
      fun equal => none content ((same content).mpr equal)
    rw [array_of_no_text none, array_of_no_text none_other, object_of_no_text none,
      object_of_no_text none_other]
    exact ⟨rfl, rfl⟩

theorem ofJson_many_elements (first second : Json) (rest : List Json) :
    ofJson (.array (first :: second :: rest)) = .error .noLiteral := by
  unfold ofJson
  split <;> simp_all

theorem ofJson_many_members (first second : String × Json) (rest : List (String × Json)) :
    ofJson (.object (first :: second :: rest)) = .error .noLiteral := by
  unfold ofJson
  split <;> simp_all

/-- A literal is the same of a phrase and of what trimming leaves of it. -/
theorem ofJson_trimmed {phrase : Phrase} {value other : Json} (whole : phrase.json? = some value)
    (trims : (phrase.trimmed {}).json? = some other) : ofJson value = ofJson other := by
  have same {layout : Layout} {inner : Phrase} {value other : Json}
      (here : inner.json? = some value) (there : (inner.trimmed layout).json? = some other)
      (content : String) : value = .text content ↔ other = .text content := by
    have kept := json?_trimmed_text layout inner content
    rw [here, there, Option.some.injEq, Option.some.injEq] at kept
    exact kept.symm
  cases phrase with
  | array elements =>
      rw [Phrase.trimmed_array] at trims
      obtain ⟨values, reads, rfl⟩ := Option.map_eq_some_iff.mp whole
      obtain ⟨others, rereads, rfl⟩ := Option.map_eq_some_iff.mp trims
      cases Phrase.forall₂_of_elementJsons? reads with
      | nil => cases rereads; rfl
      | cons here behind =>
          cases Phrase.forall₂_of_elementJsons? rereads with
          | cons there trimmed_behind =>
              cases behind with
              | nil => cases trimmed_behind; exact (ofJson_around "" (same here there)).1
              | cons =>
                  cases trimmed_behind
                  rw [ofJson_many_elements, ofJson_many_elements]
  | object members =>
      rw [Phrase.trimmed_object] at trims
      obtain ⟨values, reads, rfl⟩ := Option.map_eq_some_iff.mp whole
      obtain ⟨others, rereads, rfl⟩ := Option.map_eq_some_iff.mp trims
      cases Phrase.forall₂_of_memberJsons? reads with
      | nil => cases rereads; rfl
      | @cons _ named _ _ here behind =>
          cases Phrase.forall₂_of_memberJsons? rereads with
          | @cons _ renamed _ _ there trimmed_behind =>
              cases behind with
              | nil =>
                  cases trimmed_behind
                  obtain ⟨name, value⟩ := named
                  obtain ⟨other_name, other⟩ := renamed
                  obtain rfl : name = other_name := Option.some.inj (here.1.symm.trans there.1)
                  exact (ofJson_around name (same here.2 there.2)).2
              | cons =>
                  cases trimmed_behind
                  rw [ofJson_many_members, ofJson_many_members]
  | _ => cases whole.symm.trans trims; rfl

theorem read_overlooks {levels : Nat} : read.Overlooks levels {} Eq := by
  intro phrase shallow rest other
  have within := Nat.le_trans (phrase.depth_trimmed_le {}) shallow
  have legible := phrase.isLegible_trimmed {}
  simp only [read, Bind.bind, phrase.any_eq shallow, (phrase.trimmed {}).any_eq within]
  unfold Phrase.isLegible at legible
  cases whole : phrase.json? with
  | none =>
      cases trims : (phrase.trimmed {}).json? with
      | none => exact .refused rfl rfl
      | some value => simp [whole, trims] at legible
  | some value =>
      cases trims : (phrase.trimmed {}).json? with
      | none => simp [whole, trims] at legible
      | some trimmed =>
          simp only [Phrase.answer, ofJson_trimmed whole trims]
          cases ofJson trimmed with
          | error error => exact .refused rfl rfl
          | ok literal => exact .taken rfl rfl rfl

end Literal

/-! ### Fields -/

section Fields

variable {α : Type} {levels : Nat} {clauses : List String}

/-- A field that is no clause is read the same. -/
theorem Json.Field.Overlooks.own {field : Field} (plain : Layout.ofName (some field.name) = {})
    (fixed : clauses.contains field.name = false) (reads : field.read.Overlooks levels {} Eq) :
    field.Overlooks levels clauses Eq where
  plain := plain
  read := reads
  absent := fun _ _ => rfl
  vacates := by
    intro clause
    rw [List.contains_iff_mem.mpr clause] at fixed
    cases fixed

/-- No fields have no values but one. -/
theorem Json.Overlooking.done : Overlooking levels clauses [] Eq := by
  have trivially : (Eq : Json.Values [] → Json.Values [] → Prop) = fun _ _ => True := by
    funext _ _
    exact propext ⟨fun _ => trivial, fun _ => rfl⟩
  rw [trivially]
  exact .nil

/-- A field that is read the same, before others that are. -/
theorem Json.Overlooking.own {field : Field} {fields : List Field}
    (plain : Layout.ofName (some field.name) = {}) (first : field.read.Overlooks levels {} Eq)
    (others : Overlooking levels [] fields Eq) :
    Overlooking levels [] (field :: fields) Eq := by
  have together : (Eq : Json.Values (field :: fields) → Json.Values (field :: fields) → Prop) =
      fun values counterparts => values.1 = counterparts.1 ∧ values.2 = counterparts.2 := by
    funext values counterparts
    exact propext Prod.ext_iff
  rw [together]
  exact .cons (.own plain rfl first) others

/-- A record of fields that are read the same is read the same. -/
theorem Json.Record.overlooks_own {σ : Type} (record : Record σ)
    (own : ∀ inner, levels = inner + 1 → Overlooking inner [] record.fields Eq) :
    record.read.Overlooks levels {} Eq :=
  record.overlooks List.nil_prefix own (fun _ _ => congrArg record.assemble)

end Fields

/-! ### Children -/

section Children

variable {α : Type} {isSentinel : α → Bool} {bound : Nat} {child : Codec α}

/--
With no more levels left than the bound, children are read alike without vacant clauses, and the
JSON of the sentinel is read as one.
-/
structure Json.Codec.Tolerates (child : Codec α) (isSentinel : α → Bool) (bound : Nat) : Prop where
  overlooks : ∀ levels ≤ bound, child.read.Overlooks levels {} Eq
  sentinel : ∀ levels ≤ bound, Phrase.sentinel.depth ≤ levels →
    ∃ value, isSentinel value = true ∧
      ∀ rest, child.read levels (Phrase.sentinel.lexemes ++ rest) = .ok (value, rest)

namespace Json.Codec.Tolerates

theorem mono (tolerates : child.Tolerates isSentinel bound) {levels : Nat}
    (fewer : levels ≤ bound) : child.Tolerates isSentinel levels where
  overlooks inner le := tolerates.overlooks inner (Nat.le_trans le fewer)
  sentinel inner le := tolerates.sentinel inner (Nat.le_trans le fewer)

/-- Within a bracket there is a level fewer. -/
theorem inside (tolerates : child.Tolerates isSentinel bound) {inner : Nat}
    (fewer : bound = inner + 1) : child.Tolerates isSentinel inner :=
  tolerates.mono (by omega)

theorem here (tolerates : child.Tolerates isSentinel bound) :
    child.read.Overlooks bound {} Eq :=
  tolerates.overlooks bound (Nat.le_refl bound)

theorem list (tolerates : child.Tolerates isSentinel bound) :
    (Reader.list child.read).Overlooks bound {} Eq :=
  .list (fun _ fewer => (tolerates.inside fewer).here)

theorem option (tolerates : child.Tolerates isSentinel bound) :
    child.read.option.Overlooks bound {} Eq :=
  tolerates.here.optional

/-- An optional clause may be null or a sentinel where on the other side there is none. -/
theorem clause (tolerates : child.Tolerates isSentinel bound) {name : String}
    {clauses : List String} (plain : Layout.ofName (some name) = {}) :
    (Field.optional name child).Overlooks bound clauses (Form.Interchangeable isSentinel) where
  plain := plain
  read := tolerates.here.option (.inl rfl) (fun _ _ same => .inl (congrArg some same))
  absent := fun _ _ => .inl rfl
  vacates := by
    have vacant_none : Form.Vacant isSentinel none := nofun
    refine fun _ => ⟨none, rfl, fun _ => rfl, fun phrase vacant shallow => ?_⟩
    obtain rfl | rfl := Phrase.eq_of_isVacant vacant
    · exact ⟨none, fun _ => rfl, .inl rfl⟩
    · obtain ⟨value, stands, reads⟩ := tolerates.sentinel bound (Nat.le_refl bound) shallow
      refine ⟨some value, fun rest => ?_, .inr ⟨?_, vacant_none⟩⟩
      · change (some <$> child.read) bound (Phrase.sentinel.lexemes ++ rest) = _
        simp only [Functor.map, reads]
        rfl
      · rintro other ⟨⟩
        exact stands

end Json.Codec.Tolerates

/-! ### Forms -/

theorem Variable.read_overlooks {levels : Nat} : Variable.record.read.Overlooks levels {} Eq :=
  Variable.record.overlooks_own (fun _ _ => .own rfl .text (.own rfl .bool .done))

theorem BranchKind.read_overlooks {levels : Nat} :
    BranchKind.codec.read.Overlooks levels {} Eq :=
  .variant (fun _ _ _ => rfl) (fun _ _ _ _ _ => Reader.Overlooks.unit.map (fun _ _ _ => rfl))

theorem Branch.read_overlooks {levels : Nat} : Branch.record.read.Overlooks levels {} Eq :=
  Branch.record.overlooks_own
    (fun _ _ => .own rfl BranchKind.read_overlooks (.own rfl .int64 .done))

theorem Block.read_overlooks (tolerates : child.Tolerates isSentinel bound) :
    (Block.record child).read.Overlooks bound {} Eq := by
  refine (Block.record child).overlooks_own (fun inner fewer => ?_)
  have within := tolerates.inside fewer
  exact .own rfl within.list (.own rfl (.list (fun _ _ => Variable.read_overlooks)) .done)

/-- Of the fields of a case none is an optional clause, not even its comparand. -/
theorem SwitchCase.read_overlooks (tolerates : child.Tolerates isSentinel bound) :
    (SwitchCase.record child).read.Overlooks bound {} Eq := by
  refine (SwitchCase.record child).overlooks_own (fun inner fewer => ?_)
  have within := tolerates.inside fewer
  exact .own rfl .text (.own rfl within.option (.own rfl within.here
    (.own rfl Reader.Overlooks.index.optional .done)))

namespace Form

/-- Forms that are made of equal data are alike. -/
theorem overlooks_own {σ : Type} {reader : Reader σ} (overlooks : reader.Overlooks bound {} Eq)
    (make : σ → Form α) : (make <$> reader).Overlooks bound {} (Alike isSentinel) := by
  refine overlooks.map (fun first second same => ?_)
  subst same
  exact .same _

/-- Forms that are made of records are alike when the fields make them so. -/
theorem overlooks_record {σ : Type} {record : Record σ} {make : σ → Form α} {layout : Layout}
    {relations : Json.Values record.fields → Json.Values record.fields → Prop}
    (named : layout.others ++ layout.clauses <+: record.fields.map Field.name)
    (overlooking : ∀ inner, bound = inner + 1 →
      Overlooking inner layout.clauses record.fields relations)
    (assembled : ∀ values counterparts, relations values counterparts →
      Alike isSentinel (make (record.assemble values)) (make (record.assemble counterparts))) :
    (make <$> record.read).Overlooks bound layout (Alike isSentinel) := by
  have data : record.read.Overlooks bound layout
      (fun first second => Alike isSentinel (make first) (make second)) :=
    record.overlooks named overlooking assembled
  exact data.map (fun _ _ alike => alike)

/-- Forms of a kind are read alike, with other clauses only where these are vacant on both sides. -/
theorem read_overlooks (tolerates : child.Tolerates isSentinel bound) (kind : Kind) :
    (read child kind).Overlooks bound (.ofKind kind) (Alike isSentinel) := by
  cases kind with
  | value => exact overlooks_own Literal.read_overlooks _
  | var => exact overlooks_own Variable.read_overlooks _
  | branch => exact overlooks_own Branch.read_overlooks _
  | imports => exact overlooks_own .text _
  | spread => exact overlooks_own tolerates.here _
  | returns => exact overlooks_own tolerates.here _
  | tuple => exact overlooks_own tolerates.list _
  | format => exact overlooks_own tolerates.list _
  | object =>
      refine overlooks_own (.list (fun inner fewer => ?_)) _
      have within := tolerates.inside fewer
      exact .pair (fun _ less => (within.inside less).here) (fun _ less => (within.inside less).here)
  | assign =>
      refine overlooks_own ((Assignment.record child).overlooks_own (fun inner fewer => ?_)) _
      have within := tolerates.inside fewer
      exact .own rfl within.here (.own rfl within.here
        (.own rfl Reader.Overlooks.text.optional .done))
  | call =>
      refine overlooks_own ((Call.record child).overlooks_own (fun inner fewer => ?_)) _
      have within := tolerates.inside fewer
      exact .own rfl within.here (.own rfl within.list .done)
  | index =>
      refine overlooks_own ((Indexing.record child).overlooks_own (fun inner fewer => ?_)) _
      have within := tolerates.inside fewer
      exact .own rfl within.here (.own rfl within.list .done)
  | op =>
      refine overlooks_own ((Operation.record child).overlooks_own (fun inner fewer => ?_)) _
      exact .own rfl .text (.own rfl (tolerates.inside fewer).list .done)
  | proto =>
      refine overlooks_own ((Prototype.record child).overlooks_own (fun inner fewer => ?_)) _
      have within := tolerates.inside fewer
      exact .own rfl Reader.Overlooks.text.optional (.own rfl within.option
        (.own rfl within.list (.own rfl within.list (.own rfl within.list .done))))
  | block => exact overlooks_own (Block.read_overlooks tolerates) _
  | prog => exact overlooks_own (Block.read_overlooks tolerates) _
  | func =>
      refine overlooks_own ((FunctionLiteral.record child).overlooks_own (fun inner fewer => ?_)) _
      have within := tolerates.inside fewer
      exact .own rfl Reader.Overlooks.text.optional
        (.own rfl within.list (.own rfl within.here .done))
  | loop =>
      apply overlooks_record (List.prefix_refl _)
      case overlooking =>
        intro inner fewer
        have within := tolerates.inside fewer
        exact .cons (.own rfl rfl within.here) (.cons (within.clause rfl) .nil)
      case assembled =>
        rintro _ _ ⟨body, otherwise, -⟩
        exact .loop body otherwise
  | cond =>
      apply overlooks_record (List.prefix_refl _)
      case overlooking =>
        intro inner fewer
        have within := tolerates.inside fewer
        exact .cons (.own rfl rfl within.option)
          (.cons (within.clause rfl) (.cons (within.clause rfl) .nil))
      case assembled =>
        rintro _ _ ⟨condition, consequent, otherwise, -⟩
        exact .cond condition consequent otherwise
  | switch =>
      apply overlooks_record (List.prefix_refl _)
      case overlooking =>
        intro inner fewer
        have within := tolerates.inside fewer
        have cases : (Reader.list (SwitchCase.record child).read).Overlooks inner {} Eq :=
          .list (fun _ less => SwitchCase.read_overlooks (within.inside less))
        exact .cons (.own rfl rfl within.here) (.cons (.own rfl rfl cases)
          (.cons (within.clause rfl) (.cons (within.clause rfl) (.cons (within.clause rfl) .nil))))
      case assembled =>
        rintro _ _ ⟨scrutinee, cases, fallback, consequent, otherwise, -⟩
        exact .switch scrutinee cases fallback consequent otherwise
  | forEach =>
      apply overlooks_record (List.prefix_refl _)
      case overlooking =>
        intro inner fewer
        have within := tolerates.inside fewer
        exact .cons (.own rfl rfl within.here) (.cons (.own rfl rfl within.here)
          (.cons (.own rfl rfl within.here)
            (.cons (within.clause rfl) (.cons (within.clause rfl) .nil))))
      case assembled =>
        rintro _ _ ⟨target, source, body, consequent, otherwise, -⟩
        exact .forEach target source body consequent otherwise

end Form

end Children

end SyntaxTree
