import SyntaxTree.Json.Record

/-!
# What a reader can yield

A property that every successful read establishes, whatever the text, given how many levels of
nesting are left. It passes from the readers of parts to the readers of wholes: through sequences,
lists, pairs and variants, and for a record from its fields, read or left out, to the values of all
of them. What stands within brackets is read with a level fewer.
-/

namespace SyntaxTree.Json

namespace Reader

variable {α β : Type} {reader : Reader α} {levels : Nat} {property : α → Prop}
  {consequence : β → Prop}

/-- With so many levels left, whatever the reader takes off has the property. -/
def Yields (reader : Reader α) (levels : Nat) (property : α → Prop) : Prop :=
  ∀ ⦃lexemes value rest⦄, reader levels lexemes = .ok (value, rest) → property value

namespace Yields

theorem mono {weaker : α → Prop} (yields : reader.Yields levels property)
    (weaken : ∀ value, property value → weaker value) :
    reader.Yields levels weaker :=
  fun _ _ _ taken => weaken _ (yields taken)

theorem anything (reader : Reader α) : reader.Yields levels (fun _ => True) :=
  fun _ _ _ _ => trivial

theorem done {value : α} (holds : property value) :
    (Pure.pure value : Reader α).Yields levels property := by
  intro lexemes value rest taken
  cases taken
  exact holds

theorem failing (error : ReadError) : (Reader.fail error : Reader α).Yields levels property := by
  intro lexemes value rest taken
  cases taken

theorem andThen {next : α → Reader β} (yields : reader.Yields levels property)
    (continues : ∀ value, property value → (next value).Yields levels consequence) :
    (reader >>= next).Yields levels consequence := by
  intro lexemes value rest taken
  simp only [Bind.bind] at taken
  split at taken
  case h_1 first remaining read => exact continues first (yields read) taken
  case h_2 => cases taken

theorem map {f : α → β} (yields : reader.Yields levels property)
    (carries : ∀ value, property value → consequence (f value)) :
    (f <$> reader).Yields levels consequence :=
  yields.andThen (fun value holds => done (carries value holds))

/-- Within brackets there is a level fewer, and outside of them there was one. -/
theorem nested (yields : ∀ inner, levels = inner + 1 → reader.Yields inner property) :
    (Reader.nested reader).Yields levels property := by
  intro lexemes value rest taken
  cases levels with
  | zero => cases taken
  | succ levels => exact yields levels rfl taken

theorem option (yields : reader.Yields levels property) :
    reader.option.Yields levels (fun clause => ∀ value ∈ clause, property value) := by
  intro lexemes value rest taken
  unfold Reader.option at taken
  split at taken
  · cases taken; simp
  · cases taken
  · split at taken
    · cases taken
      simpa using yields ‹_›
    · cases taken

theorem moreElements (yields : reader.Yields levels property) (steps : Nat) :
    (Reader.moreElements reader steps).Yields levels
      (fun values => ∀ value ∈ values, property value) := by
  induction steps with
  | zero => exact failing _
  | succ steps ih =>
      intro lexemes value rest taken
      unfold Reader.moreElements at taken
      split at taken
      · cases taken
      · cases taken; simp
      · split at taken
        · cases taken
        · split at taken
          · cases taken
          · cases taken
            simpa using ⟨yields ‹_›, ih ‹_›⟩
      · cases taken

theorem list (yields : ∀ inner, levels = inner + 1 → reader.Yields inner property) :
    (Reader.list reader).Yields levels (fun values => ∀ value ∈ values, property value) := by
  have elements {inner : Nat} (yields : reader.Yields inner property) :
      (Reader.elements reader).Yields inner (fun values => ∀ value ∈ values, property value) := by
    intro lexemes value rest taken
    unfold Reader.elements at taken
    split at taken
    · cases taken
    · cases taken; simp
    · split at taken
      · cases taken
      · split at taken
        · cases taken
        · cases taken
          simpa using ⟨yields ‹_›, yields.moreElements _ ‹_›⟩
  intro lexemes value rest taken
  unfold Reader.list Reader.array at taken
  split at taken
  · exact nested (fun inner fewer => elements (yields inner fewer)) taken
  · cases taken
  · cases taken

theorem pair {second : Reader β}
    (yields : ∀ inner, levels = inner + 1 → reader.Yields inner property)
    (follows : ∀ inner, levels = inner + 1 → second.Yields inner consequence) :
    (Reader.pair reader second).Yields levels
      (fun both => property both.1 ∧ consequence both.2) := by
  intro lexemes value rest taken
  unfold Reader.pair Reader.array at taken
  split at taken
  · refine (nested (fun inner fewer lexemes value rest taken => ?_) :
      Reader.Yields _ levels (fun both => property both.1 ∧ consequence both.2)) taken
    split at taken
    · cases taken
    · cases taken
    · split at taken
      · cases taken
      · rename_i one remaining first
        split at taken
        · cases taken
        · cases taken
        · refine (andThen (follows inner fewer) (fun other holds => ?_) :
            Reader.Yields _ inner (fun both => property both.1 ∧ consequence both.2)) taken
          exact andThen (anything _) (fun _ _ => done ⟨yields inner fewer first, holds⟩)
        · cases taken
  · cases taken
  · cases taken

theorem variant {known : List String} {lookup : String → Option β} {bare : β → Except DataError α}
    {payload : β → Reader α}
    (yieldsBare : ∀ variant value, bare variant = .ok value → property value)
    (yields : ∀ inner, levels = inner + 1 → ∀ variant, (payload variant).Yields inner property) :
    (Reader.variant known lookup bare payload).Yields levels property := by
  intro lexemes value rest taken
  unfold Reader.variant at taken
  split at taken
  · refine nested (fun inner fewer => andThen (anything _) (fun key _ => ?_)) taken
    split
    · exact failing _
    · refine andThen (anything _)
        (fun _ _ => andThen (yields inner fewer _) (fun value holds => ?_))
      exact andThen (anything _) (fun _ _ => done holds)
  · split at taken
    · cases taken
    · rename_i key variant found
      cases result : bare variant with
      | ok value =>
          rw [result] at taken
          cases taken
          exact yieldsBare _ _ result
      | error error =>
          rw [result] at taken
          cases taken
  all_goals cases taken

end Yields
end Reader

/-- An element that is there is read after its comma. -/
theorem Record.fromElements_cons {expected : String} {field : Field} {fields : List Field}
    {position levels : Nat} {lexeme : Lexeme} {after : List Lexeme}
    (opens : lexeme ≠ .closeBracket) :
    Record.fromElements expected (field :: fields) position levels (lexeme :: after) =
      ((if position = 0 then pure () else Reader.punctuation .comma) >>= fun _ =>
        field.read >>= fun value =>
          Record.fromElements expected fields (position + 1) >>= fun values =>
            pure (value, values)) levels (lexeme :: after) := by
  cases position <;> cases lexeme <;> first | exact absurd rfl opens | rfl

/-- With so many levels left, reading the field, and leaving it out, gives a value with the
property. -/
structure Field.Yields (field : Field) (levels : Nat) (property : field.Value → Prop) : Prop where
  read : field.read.Yields levels property
  absent : ∀ value, field.absent = some value → property value

namespace Field

variable {α : Type} {name : String} {codec : Codec α} {levels : Nat} {property : α → Prop}

theorem any_yields (field : Field) : field.Yields levels (fun _ => True) :=
  ⟨Reader.Yields.anything _, fun _ _ => trivial⟩

theorem required_yields (yields : codec.read.Yields levels property) :
    (required name codec).Yields levels property where
  read := yields
  absent := nofun

theorem optional_yields (yields : codec.read.Yields levels property) :
    (optional name codec).Yields levels
      (fun clause : Option α => ∀ value ∈ clause, property value) where
  read := yields.option
  absent clause equal := by cases equal; simp

theorem list_yields
    (yields : ∀ inner, levels = inner + 1 → codec.read.Yields inner property) :
    (list name codec).Yields levels
      (fun values : List α => ∀ value ∈ values, property value) where
  read := .list yields
  absent values equal := by cases equal; simp

theorem nonemptyList_yields
    (yields : ∀ inner, levels = inner + 1 → codec.read.Yields inner property) :
    (nonemptyList name codec).Yields levels
      (fun values : List α => ∀ value ∈ values, property value) where
  read := .list yields
  absent values equal := by cases equal; simp

end Field

/-- With so many levels left, reading the given fields gives values with the property. -/
inductive Guaranteed (levels : Nat) : (fields : List Field) → (Values fields → Prop) → Prop where
  | nil : Guaranteed levels [] (fun _ => True)
  | cons {field : Field} {fields : List Field} {property : field.Value → Prop}
      {properties : Values fields → Prop} (first : field.Yields levels property)
      (others : Guaranteed levels fields properties) :
      Guaranteed levels (field :: fields) (fun values => property values.1 ∧ properties values.2)

namespace Guaranteed

open Reader.Yields (andThen anything done failing)

variable {levels : Nat}

/-- An invariant of the slots that every member keeps and that carries over to the values. -/
theorem slots_invariant {fields : List Field} {properties : Values fields → Prop}
    (guaranteed : Guaranteed levels fields properties) :
    ∃ invariant : Slots fields → Prop,
      invariant (Slots.empty fields) ∧
      (∀ name slots reader, invariant slots → slots.member fields name = some reader →
        reader.Yields levels invariant) ∧
      ∀ slots values, invariant slots → slots.values fields = .ok values → properties values := by
  induction guaranteed with
  | nil => exact ⟨fun _ => True, trivial, fun _ _ _ _ _ => anything _, fun _ _ _ _ => trivial⟩
  | @cons field fields property properties first others ih =>
      obtain ⟨invariant, start, step, finish⟩ := ih
      refine ⟨fun slots => (∀ value, slots.1 = some value → property value) ∧ invariant slots.2,
        ⟨nofun, start⟩, ?_, ?_⟩
      · rintro name ⟨slot, slots⟩ reader ⟨held, kept⟩ found
        simp only [Slots.member] at found
        split at found
        · split at found
          · cases found
            exact failing _
          · cases found
            refine andThen (anything _)
              (fun _ _ => andThen first.read (fun value holds => done ⟨?_, kept⟩))
            intro other equal
            cases equal
            exact holds
        · obtain ⟨inner, foundInner, rfl⟩ := Option.map_eq_some_iff.mp found
          exact andThen (step name slots inner kept foundInner)
            (fun slots kept => done ⟨held, kept⟩)
      · rintro ⟨slot, slots⟩ values ⟨held, kept⟩ collected
        simp only [Slots.values] at collected
        split at collected
        · cases collected
        · rename_i value chosen
          cases collectedRest : slots.values fields with
          | error error => rw [collectedRest] at collected; cases collected
          | ok others =>
              rw [collectedRest] at collected
              cases collected
              refine ⟨?_, finish slots others kept collectedRest⟩
              cases slot with
              | none => exact first.absent value chosen
              | some read =>
                  cases chosen
                  exact held _ rfl

theorem fromMembers {fields : List Field} {properties : Values fields → Prop}
    (guaranteed : Guaranteed levels fields properties) :
    (Record.fromMembers fields).Yields levels properties := by
  obtain ⟨invariant, start, step, finish⟩ := guaranteed.slots_invariant
  have member (slots : Slots fields) (kept : invariant slots) :
      (Record.member fields slots).Yields levels invariant := by
    refine andThen (anything _) (fun name _ => ?_)
    split
    · exact step _ _ _ kept ‹_›
    · exact andThen (anything _) (fun _ _ => andThen (anything _) (fun _ _ => done kept))
  have moreMembers (steps : Nat) (slots : Slots fields) (kept : invariant slots) :
      (Record.moreMembers fields steps slots).Yields levels invariant := by
    induction steps generalizing slots with
    | zero => exact failing _
    | succ steps ih =>
        intro lexemes value rest taken
        unfold Record.moreMembers at taken
        split at taken
        · cases taken
        · cases taken; exact kept
        · split at taken
          · cases taken
          · exact ih _ (member _ kept ‹_›) taken
        · cases taken
  intro lexemes values rest taken
  unfold Record.fromMembers at taken
  dsimp only at taken
  split at taken
  · cases taken
  · rename_i slots remaining read
    split at taken
    · cases taken
    · cases taken
      refine finish slots _ ?_ ‹_›
      split at read
      · cases read; exact start
      · exact andThen (member _ start) (fun slots kept => moreMembers _ slots kept) read

theorem remaining {fields : List Field} {properties : Values fields → Prop} {expected : String}
    (guaranteed : Guaranteed levels fields properties) {position : Nat} {values : Values fields}
    (filled : Record.remaining expected fields position = .ok values) : properties values := by
  induction guaranteed generalizing position with
  | nil => trivial
  | @cons field fields property properties first others ih =>
      unfold Record.remaining at filled
      split at filled
      · cases filled
      · rename_i value absent
        cases filledRest : Record.remaining expected fields (position + 1) with
        | error error => rw [filledRest] at filled; cases filled
        | ok others =>
            rw [filledRest] at filled
            cases filled
            exact ⟨first.absent value absent, ih filledRest⟩

theorem fromElements {fields : List Field} {properties : Values fields → Prop}
    (guaranteed : Guaranteed levels fields properties) (expected : String) (position : Nat) :
    (Record.fromElements expected fields position).Yields levels properties := by
  induction guaranteed generalizing position with
  | nil => exact andThen (anything _) (fun _ _ => done trivial)
  | @cons field fields property properties first others ih =>
      intro lexemes values rest taken
      cases lexemes with
      | nil => cases taken
      | cons lexeme after =>
          by_cases closes : lexeme = .closeBracket
          · subst closes
            simp only [Record.fromElements] at taken
            split at taken
            · cases taken
            · cases taken
              exact remaining (.cons first others) ‹_›
          · rw [Record.fromElements_cons closes] at taken
            refine (andThen (anything _) (fun _ _ => andThen first.read (fun value holds => ?_)) :
              Reader.Yields _ levels (fun values => property values.1 ∧ properties values.2)) taken
            exact andThen (ih _) (fun values kept => done ⟨holds, kept⟩)

end Guaranteed

theorem Record.read_yields {σ : Type} (record : Record σ) {levels : Nat}
    {properties : Values record.fields → Prop} {property : σ → Prop}
    (guaranteed : ∀ inner, levels = inner + 1 → Guaranteed inner record.fields properties)
    (assembled : ∀ values, properties values → property (record.assemble values)) :
    record.read.Yields levels property := by
  intro lexemes value rest taken
  unfold Record.read at taken
  split at taken
  · exact Reader.Yields.nested
      (fun inner fewer => (guaranteed inner fewer).fromMembers.map assembled) taken
  · exact Reader.Yields.nested
      (fun inner fewer => ((guaranteed inner fewer).fromElements _ 0).map assembled) taken
  · cases taken
  · cases taken

end SyntaxTree.Json
