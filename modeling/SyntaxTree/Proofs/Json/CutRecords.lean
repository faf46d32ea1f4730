import SyntaxTree.Proofs.Json.Streams

/-!
# Records that are cut

The members of an object that is cut are read up to the cut, and the end of the text is met before
anything is said of members that are not there. The slots that were filled so far do not matter.
-/

namespace SyntaxTree.Json

open Reader (Follows Stops Takes)

/-- The reader of its field follows each member that is written for the values. -/
inductive Streamed (bound : Nat) : (fields : List Field) → Values fields → Prop
  | nil : Streamed bound [] ()
  | absent {field : Field} {fields : List Field} {value default : field.Value}
      {written : Values fields} (unwritten : field.write value = none)
      (defaults : field.absent = some default) (others : Streamed bound fields written) :
      Streamed bound (field :: fields) (value, written)
  | present {field : Field} {fields : List Field} {value : field.Value} {json : Json}
      {written : Values fields} (writes : field.write value = some json)
      (follows : field.read.Follows bound json)
      (others : Streamed bound fields written) : Streamed bound (field :: fields) (value, written)

namespace Streamed

variable {α : Type} {bound : Nat} {fields : List Field} {written : Values fields} {name : String}
  {codec : Codec α}

theorem required {value : α} (follows : codec.read.Follows bound (codec.write value))
    (others : Streamed bound fields written) :
    Streamed bound (.required name codec :: fields) (value, written) :=
  .present rfl follows others

theorem defaulting {value default : α} (follows : codec.read.Follows bound (codec.write value))
    (others : Streamed bound fields written) :
    Streamed bound (.defaulting name codec default :: fields) (value, written) :=
  .present rfl follows others

theorem optional {clause : Option α}
    (follows : ∀ value ∈ clause, codec.read.Follows bound (codec.write value))
    (solid : ∀ value, codec.write value ≠ .null) (others : Streamed bound fields written) :
    Streamed bound (.optional name codec :: fields) (clause, written) := by
  cases clause with
  | none => exact .absent rfl rfl others
  | some value =>
      exact .present rfl ((follows value rfl).option (Reader.firm_spelling (solid value))) others

theorem list {elements : List α}
    (follows : ∀ value ∈ elements, codec.read.Follows bound (codec.write value))
    (solid : ∀ value, codec.write value ≠ .null) (others : Streamed bound fields written) :
    Streamed bound (.list name codec :: fields) (elements, written) :=
  defaulting (Follows.list follows (fun value _ => solid value)) others

theorem nonemptyList {elements : List α}
    (follows : ∀ value ∈ elements, codec.read.Follows bound (codec.write value))
    (solid : ∀ value, codec.write value ≠ .null) (others : Streamed bound fields written) :
    Streamed bound (.nonemptyList name codec :: fields) (elements, written) := by
  cases elements with
  | nil => exact .absent rfl rfl others
  | cons first rest =>
      exact .present rfl (Follows.list follows (fun value _ => solid value)) others

theorem entries (streamed : Streamed bound fields written) :
    ∃ slots values, Entries bound fields written (.ok slots) (.ok values) := by
  induction streamed with
  | nil => exact ⟨_, _, .nil⟩
  | absent unwritten defaults _ ih =>
      obtain ⟨slots, values, entries⟩ := ih
      exact ⟨_, _, .absent unwritten defaults entries⟩
  | present writes follows _ ih =>
      obtain ⟨slots, values, entries⟩ := ih
      obtain ⟨value, takes⟩ := follows.takes
      exact ⟨_, _, .present writes takes entries⟩

/-- The members after one of an object, with any fuel, from where the fields are placed. -/
theorem stops_moreMembers {all : List Field} (streamed : Streamed bound fields written)
    (distinct : (fields.map Field.name).Nodup) (placed : Entries.Placed fields all) (steps : Nat) :
    (Record.moreMembers all steps (placed.place (Slots.empty fields))).Stops bound
      ((Record.members fields written).flatMap
        (fun member => .comma :: Entries.memberSpelling member) ++ [.closeBrace])
      (Takes.deepest (fun member => member.2.depth) (Record.members fields written)) := by
  induction streamed generalizing steps with
  | nil => exact Stops.ofMark rfl (fun _ => by cases steps <;> rfl)
  | @absent field fields value default written unwritten defaults others ih =>
      have members : Record.members (field :: fields) (value, written) =
          Record.members fields written := by
        simp only [Record.members, unwritten]
        rfl
      rw [members]
      exact ih (List.nodup_cons.mp distinct).2 (placed.behind distinct none) steps
  | @present field fields value json written writes follows others ih =>
      have members : Record.members (field :: fields) (value, written) =
          (field.name, json) :: Record.members fields written := by
        simp only [Record.members, writes]
        rfl
      rw [members]
      cases steps with
      | zero => exact fun _ _ _ _ _ => rfl
      | succ steps =>
          have filled := placed.fills (Slots.empty fields)
          have further (read : field.Value) :=
            ih (List.nodup_cons.mp distinct).2 (placed.behind distinct (some read)) steps
          have held : (Reader.punctuation .colon >>= fun _ => field.read >>= fun value =>
              Record.moreMembers all steps (placed.place (some value, Slots.empty fields))).Stops
                bound (.colon :: _) _ :=
            Stops.behind rfl (fun _ => rfl) (fun _ _ => rfl) (follows.followed (by simp) further)
          intro levels fewer enough left cut
          rw [List.flatMap_cons, List.append_assoc] at cut
          cases cut with
          | before => rfl
          | within remnant => cases remnant
          | behind _ cut =>
              cases cut with
              | before => rfl
              | within remnant =>
                  cases remnant
                  rfl
              | behind _ cut =>
                  change Record.moreMembers all (steps + 1)
                    (placed.place (none, Slots.empty fields)) levels _ = _
                  rw [Entries.moreMembers_comma _ filled]
                  exact held levels fewer enough _ cut

theorem slotsReader_cons (fields : List Field) (levels : Nat) {opening : Lexeme}
    {rest : List Lexeme} (opens : opening ≠ .closeBrace) :
    Entries.slotsReader fields levels (opening :: rest) =
      (Record.member fields (Slots.empty fields) >>=
        Record.moreMembers fields (opening :: rest).length) levels (opening :: rest) := by
  cases opening <;> first | rfl | exact absurd rfl opens

theorem stops_slotsReader (streamed : Streamed bound fields written)
    (distinct : (fields.map Field.name).Nodup) :
    (Entries.slotsReader fields).Stops bound
      ([.comma].intercalate ((Record.members fields written).map Entries.memberSpelling) ++
        [.closeBrace])
      (Takes.deepest (fun member => member.2.depth) (Record.members fields written)) := by
  have further := streamed.stops_moreMembers distinct (Entries.Placed.whole fields)
  generalize Record.members fields written = members at further
  cases members with
  | nil => exact Stops.ofMark rfl (fun _ => rfl)
  | cons first others =>
      intro levels fewer enough left cut
      rw [List.map_cons, intercalate_cons, List.flatMap_map, List.append_assoc] at cut
      -- The first member is read as it would be behind a comma.
      have behind : Record.moreMembers fields (left.length + 1) (Slots.empty fields) levels
          (.comma :: left) = .error (.fault .ended) :=
        further (left.length + 1) levels fewer enough (.comma :: left)
          (by simpa using Cut.behind .comma cut)
      cases left with
      | nil => rfl
      | cons head tail =>
          have opens : head ≠ .closeBrace := by
            cases cut with
            | within remnant =>
                rintro rfl
                cases remnant
            | behind => exact nofun
          rw [slotsReader_cons fields levels opens]
          simp only [Record.moreMembers, Bind.bind] at behind ⊢
          cases taken : Record.member fields (Slots.empty fields) levels (head :: tail) with
          | error error =>
              rw [taken] at behind
              exact congrArg Except.error (Except.error.inj behind)
          | ok read =>
              rw [taken] at behind
              exact behind

theorem stops_fromMembers (streamed : Streamed bound fields written)
    (distinct : (fields.map Field.name).Nodup) :
    (Record.fromMembers fields).Stops bound
      ([.comma].intercalate ((Record.members fields written).map Entries.memberSpelling) ++
        [.closeBrace])
      (Takes.deepest (fun member => member.2.depth) (Record.members fields written)) := by
  rw [Entries.fromMembers_eq]
  exact (streamed.stops_slotsReader distinct).andThen _

end Streamed

/-- A record is taken as it is written, and stops where that is cut. -/
theorem Record.follows {σ : Type} (record : Record σ) (value : σ) {bound : Nat}
    (streamed : Streamed bound record.fields (record.parts value))
    (distinct : (record.fields.map Field.name).Nodup) :
    record.read.Follows bound (record.write value) := by
  obtain ⟨slots, values, entries⟩ := streamed.entries
  have taken := record.reads value ⟨_, entries⟩ distinct
  refine ⟨⟨record.assemble values, taken⟩, Stops.breaks ?_⟩
  have inside := ((streamed.stops_fromMembers distinct).map record.assemble).nested
  have whole : record.read.Stops (bound + 1) (.openBrace :: _) _ :=
    Stops.behind rfl (fun _ => rfl) (fun _ _ => rfl) inside
  refine (whole.mono (Nat.le_succ bound)).cast ?_ ?_
  · rw [Record.write, spelling, memberSpellings_eq_map]
    rfl
  · rw [Record.write, depth, Reader.memberDepths_eq]

end SyntaxTree.Json
