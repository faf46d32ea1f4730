import SyntaxTree.Json.Record
import SyntaxTree.Proofs.Json.Takes

/-!
# Records read what they write

A record that is written has its members in the order of the fields, those left out that need not
be there. Reading them fills the slots one after another; what is read of a member is up to its
field, and the first malformation among the members ends the reading.
-/

namespace SyntaxTree.Json

/-! ### Values other than null -/

theorem integer_ne_null (value : Int) : integer value ≠ .null := by rintro ⟨⟩

theorem text_ne_null (value : String) : text value ≠ .null := by rintro ⟨⟩

theorem array_ne_null (elements : List Json) : array elements ≠ .null := by rintro ⟨⟩

theorem object_ne_null (members : List (String × Json)) : object members ≠ .null := by rintro ⟨⟩

namespace Reader

variable {α β γ : Type}

/-- The reader takes the spelling of the value and comes to the outcome. -/
def Reads (bound : Nat) (reader : Reader α) (json : Json) (outcome : Except Malformation α) :
    Prop :=
  reader.Takes bound json.spelling json.depth outcome

theorem firm_spelling {json : Json} (solid : json ≠ .null) : Firm json.spelling := by
  cases json with
  | null => exact absurd rfl solid
  | _ => exact trivial

theorem depths_map (write : α → Json) (items : List α) :
    depths (items.map write) = Takes.deepest (fun item => (write item).depth) items := by
  induction items with
  | nil => rfl
  | cons item rest ih =>
      rw [List.map_cons, depths, ih]
      rfl

theorem memberDepths_eq (members : List (String × Json)) :
    memberDepths members = Takes.deepest (fun member => member.2.depth) members := by
  induction members with
  | nil => rfl
  | cons member rest ih =>
      rw [memberDepths, ih]
      rfl

theorem Reads.list {bound : Nat} {element : Reader β} {write : α → Json}
    {outcome : α → Except Malformation β} {items : List α}
    (reads : ∀ item ∈ items, element.Reads bound (write item) (outcome item))
    (solid : ∀ item ∈ items, write item ≠ .null) :
    (Reader.list element).Reads bound (.array (items.map write)) (items.mapM outcome) := by
  have whole := Takes.list reads (fun item member => firm_spelling (solid item member))
  refine (whole.mono (Nat.le_succ bound)).cast ?_ ?_ rfl
  · rw [spelling, spellings_eq_map, List.map_map]
    rfl
  · rw [depth, depths_map]

theorem Reads.pair {bound : Nat} {first : Reader α} {second : Reader β} {one other : Json}
    {outcome : Except Malformation α} {further : Except Malformation β}
    (reads : first.Reads bound one outcome) (solid : one ≠ .null)
    (follows : second.Reads bound other further) :
    (Reader.pair first second).Reads bound (.array [one, other])
      (return (← outcome, ← further)) := by
  have whole := Takes.pair reads (firm_spelling solid) follows
  refine (whole.mono (Nat.le_succ bound)).cast ?_ ?_ rfl
  · simp [spelling, spellings]
  · simp [depth, depths]

end Reader

open Reader (Reads Takes)

/--
Writing the values leaves members from which reading comes to the outcomes, one for the slots that
the members fill and one for the values of all fields.
-/
inductive Entries (bound : Nat) : (fields : List Field) → (written : Values fields) →
    Except Malformation (Slots fields) → Except Malformation (Values fields) → Prop where
  | nil : Entries bound [] () (.ok ()) (.ok ())
  | absent {field : Field} {fields : List Field} {value default : field.Value}
      {written : Values fields} {slots : Except Malformation (Slots fields)}
      {values : Except Malformation (Values fields)} (unwritten : field.write value = none)
      (defaults : field.absent = some default) (others : Entries bound fields written slots values) :
      Entries bound (field :: fields) (value, written) ((none, ·) <$> slots) ((default, ·) <$> values)
  | present {field : Field} {fields : List Field} {value : field.Value} {json : Json}
      {written : Values fields} {outcome : Except Malformation field.Value}
      {slots : Except Malformation (Slots fields)} {values : Except Malformation (Values fields)}
      (writes : field.write value = some json) (reads : field.read.Reads bound json outcome)
      (others : Entries bound fields written slots values) :
      Entries bound (field :: fields) (value, written) (return (some (← outcome), ← slots))
        (return (← outcome, ← values))

namespace Entries

variable {α β γ : Type} {bound : Nat} {fields : List Field} {written : Values fields}
  {slots : Except Malformation (Slots fields)} {values : Except Malformation (Values fields)}

/-- Full slots have values, and a malformation is one of either. -/
theorem values_of_slots (entries : Entries bound fields written slots values) :
    (∀ filled, slots = .ok filled → ∃ all, filled.values fields = .ok all ∧ values = .ok all) ∧
      ∀ cause, slots = .error cause → values = .error cause := by
  induction entries with
  | nil => exact ⟨fun filled _ => ⟨(), rfl, rfl⟩, nofun⟩
  | @absent field fields value default written slots values unwritten defaults others ih =>
      cases slots with
      | error cause =>
          rw [ih.2 cause rfl]
          exact ⟨nofun, fun _ equal => by cases equal; rfl⟩
      | ok filled =>
          obtain ⟨all, collected, rfl⟩ := ih.1 filled rfl
          refine ⟨fun _ equal => ?_, nofun⟩
          cases equal
          refine ⟨(default, all), ?_, rfl⟩
          simp only [Slots.values, Option.none_or, defaults, collected]
          rfl
  | @present field fields value json written outcome slots values writes reads others ih =>
      cases outcome with
      | error cause => exact ⟨nofun, fun _ equal => by cases equal; rfl⟩
      | ok read =>
          cases slots with
          | error cause =>
              rw [ih.2 cause rfl]
              exact ⟨nofun, fun _ equal => by cases equal; rfl⟩
          | ok filled =>
              obtain ⟨all, collected, rfl⟩ := ih.1 filled rfl
              refine ⟨fun _ equal => ?_, nofun⟩
              cases equal
              refine ⟨(read, all), ?_, rfl⟩
              simp only [Slots.values, Option.some_or, collected]
              rfl

/-- The lexemes of a member. -/
def memberSpelling (member : String × Json) : List Lexeme :=
  .text (some member.1) :: .colon :: member.2.spelling

/-- A member that fills a slot, behind its comma. -/
theorem moreMembers_comma {all : List Field} {field : Field} {current : Slots all}
    (fill : field.Value → Slots all)
    (found : current.member all field.name =
      some (Reader.punctuation .colon >>= fun _ => fill <$> field.read))
    (steps levels : Nat) (rest : List Lexeme) :
    Record.moreMembers all (steps + 1) current levels
        (.comma :: .text (some field.name) :: rest) =
      (Reader.punctuation .colon >>= fun _ => field.read >>= fun value =>
        Record.moreMembers all steps (fill value)) levels rest := by
  simp only [Record.moreMembers, Record.member, Bind.bind, Reader.name, found]
  cases Reader.punctuation .colon levels rest with
  | error error => rfl
  | ok taken =>
      obtain ⟨⟨⟩, remaining⟩ := taken
      simp only [Functor.map]
      cases field.read levels remaining <;> rfl

theorem map_map (first : Reader α) (f : α → β) (g : β → γ) :
    g <$> (f <$> first) = (fun value => g (f value)) <$> first := by
  funext levels lexemes
  simp only [Functor.map]
  cases first levels lexemes <;> rfl

/-- Slots of the last fields, and what they are among the slots of all fields. -/
structure Placed (fields all : List Field) where
  place : Slots fields → Slots all
  member : ∀ name ∈ fields.map Field.name, ∀ current reader,
    current.member fields name = some reader →
      (place current).member all name = some (place <$> reader)

namespace Placed

variable {all : List Field} {field : Field}

/-- Behind a slot, whatever it holds, since later fields have other names. -/
def behind (placed : Placed (field :: fields) all)
    (distinct : ((field :: fields).map Field.name).Nodup) (slot : Option field.Value) :
    Placed fields all where
  place current := placed.place (slot, current)
  member name member current reader found := by
    have other : field.name ≠ name := by
      rintro rfl
      exact (List.nodup_cons.mp distinct).1 member
    have among : Slots.member (field :: fields) name (slot, current) =
        some ((fun current => (slot, current)) <$> reader) := by
      simp only [Slots.member, if_neg other, found]
      rfl
    have placedFound := placed.member name (List.mem_cons_of_mem _ member) _ _ among
    exact placedFound.trans (congrArg some (map_map reader (fun current => (slot, current)) _))

/-- The first of the slots, while it is empty, takes the member of its name. -/
theorem fills (placed : Placed (field :: fields) all) (current : Slots fields) :
    (placed.place (none, current)).member all field.name =
      some (Reader.punctuation .colon >>= fun _ =>
        (fun value => placed.place (some value, current)) <$> field.read) := by
  have among : Slots.member (field :: fields) field.name (none, current) =
      some (Reader.punctuation .colon >>= fun _ =>
        (fun value => (some value, current)) <$> field.read) := by
    simp only [Slots.member, if_pos]
    rfl
  refine (placed.member field.name List.mem_cons_self _ _ among).trans (congrArg some ?_)
  funext levels lexemes
  simp only [Functor.map, Bind.bind]
  cases Reader.punctuation .colon levels lexemes with
  | error error => rfl
  | ok taken =>
      obtain ⟨mark, remaining⟩ := taken
      dsimp only
      cases field.read levels remaining <;> rfl

end Placed

/-- The members fill the slots from where the fields are placed. -/
theorem moreMembers {all : List Field} (entries : Entries bound fields written slots values)
    (distinct : (fields.map Field.name).Nodup) (placed : Placed fields all) (steps : Nat)
    (enough : (Record.members fields written).length < steps) :
    (Record.moreMembers all steps (placed.place (Slots.empty fields))).Takes bound
      ((Record.members fields written).flatMap (fun member => .comma :: memberSpelling member) ++
        [.closeBrace])
      (Takes.deepest (fun member => member.2.depth) (Record.members fields written))
      (placed.place <$> slots) := by
  induction entries generalizing steps with
  | nil =>
      obtain ⟨steps, rfl⟩ := Nat.exists_eq_succ_of_ne_zero (Nat.ne_of_gt (Nat.zero_lt_of_lt enough))
      exact Takes.flat (fun _ _ => rfl)
  | @absent field fields value default written slots values unwritten defaults others ih =>
      have members : Record.members (field :: fields) (value, written) =
          Record.members fields written := by
        simp only [Record.members, unwritten]
        rfl
      rw [members] at enough ⊢
      have taken := ih (List.nodup_cons.mp distinct).2 (placed.behind distinct none) steps enough
      refine taken.cast rfl rfl ?_
      cases slots <;> rfl
  | @present field fields value json written outcome slots values writes reads others ih =>
      have members : Record.members (field :: fields) (value, written) =
          (field.name, json) :: Record.members fields written := by
        simp only [Record.members, writes]
        rfl
      rw [members] at enough ⊢
      obtain ⟨steps, rfl⟩ := Nat.exists_eq_succ_of_ne_zero (Nat.ne_of_gt (Nat.zero_lt_of_lt enough))
      have filled := placed.fills (Slots.empty fields)
      have further (read : field.Value) :=
        ih (List.nodup_cons.mp distinct).2 (placed.behind distinct (some read)) steps
          (Nat.lt_of_succ_lt_succ enough)
      have both := (Takes.mark .colon).andThen (fun _ _ => reads.andThen (fun read _ => further read))
      refine (Takes.agreeing [.comma, .text (some field.name)] (fun levels rest => ?_) both).cast
        ?_ ?_ ?_
      · exact moreMembers_comma _ filled steps levels _
      · simp [memberSpelling]
      · exact Nat.zero_max _
      · cases outcome <;> cases slots <;> rfl

/-- All fields, placed where they are. -/
def Placed.whole (fields : List Field) : Placed fields fields where
  place current := current
  member name _ current reader found := by
    rw [found]
    refine congrArg some (funext fun levels => funext fun lexemes => ?_)
    simp only [Functor.map]
    cases reader levels lexemes <;> rfl

/-- The members of an object up to its closing brace, and the slots that they fill. -/
def slotsReader (fields : List Field) : Reader (Slots fields) := fun levels lexemes =>
  match lexemes with
  | .closeBrace :: rest => .ok (Slots.empty fields, rest)
  | lexemes =>
      (Record.member fields (Slots.empty fields) >>= Record.moreMembers fields lexemes.length)
        levels lexemes

theorem fromMembers_eq (fields : List Field) :
    Record.fromMembers fields =
      (slotsReader fields >>= fun slots => Reader.ofExcept (slots.values fields)) := by
  funext levels lexemes
  unfold Record.fromMembers
  simp only [Bind.bind]
  split
  case h_1 error refused =>
      have same : slotsReader fields levels lexemes = .error error := refused
      rw [same]
  case h_2 slots rest taken =>
      have same : slotsReader fields levels lexemes = .ok (slots, rest) := taken
      rw [same]
      dsimp only
      cases slots.values fields <;> rfl

/-- The members are read behind the opening brace as they are behind a comma. -/
theorem slotsReader_takes {fields : List Field} {members : List β} {name : β → String}
    {value : β → List Lexeme} {depth : Nat} {slots : Except Malformation (Slots fields)}
    (further : ∀ steps, members.length < steps →
      (Record.moreMembers fields steps (Slots.empty fields)).Takes bound
        (members.flatMap (fun member =>
          .comma :: .text (some (name member)) :: .colon :: value member) ++ [.closeBrace])
        depth slots) :
    (slotsReader fields).Takes bound
      ([.comma].intercalate (members.map (fun member =>
        .text (some (name member)) :: .colon :: value member)) ++ [.closeBrace]) depth slots := by
  let spelled (member : β) : List Lexeme := .text (some (name member)) :: .colon :: value member
  cases members with
  | nil =>
      have one := further 1 Nat.one_pos
      exact ⟨one.within, one.beyond⟩
  | cons first others =>
      have fuel : others.length + 1 ≤ (spelled first ++
          others.flatMap (fun member => .comma :: spelled member) ++
            [Lexeme.closeBrace]).length := by
        have least := Takes.length_le_flatMap_comma spelled others
        simp only [List.length_append, List.length_singleton]
        omega
      have attempt := Takes.fueled [.comma] (fun length =>
        Record.moreMembers fields (length + 1) (Slots.empty fields)) fuel
        (fun steps enough => further (steps + 1) (Nat.lt_succ_of_le enough))
      rw [List.map_cons, intercalate_cons, List.flatMap_map]
      refine (Takes.agreeing [] (fun levels rest => ?_) attempt).cast rfl rfl rfl
      simp only [spelled, List.nil_append, List.cons_append, slotsReader, Bind.bind,
        Record.moreMembers]
      cases Record.member fields (Slots.empty fields) levels _ <;> rfl

/-- The record's values are the outcome of reading its members. -/
theorem fromMembers (entries : Entries bound fields written slots values)
    (distinct : (fields.map Field.name).Nodup) :
    (Record.fromMembers fields).Takes bound
      ([.comma].intercalate ((Record.members fields written).map memberSpelling) ++ [.closeBrace])
      (Takes.deepest (fun member => member.2.depth) (Record.members fields written)) values := by
  obtain ⟨succeeds, fails⟩ := entries.values_of_slots
  have collected (filled : Slots fields) (equal : slots = .ok filled) :
      (Reader.ofExcept (filled.values fields)).Takes bound [] 0 values := by
    obtain ⟨all, full, rfl⟩ := succeeds filled equal
    rw [full]
    exact Takes.done all
  have further := entries.moreMembers distinct (Placed.whole fields)
  have same : (Placed.whole fields).place <$> slots = slots := by cases slots <;> rfl
  rw [same] at further
  have both := (slotsReader_takes further).andThen collected
  rw [fromMembers_eq]
  refine both.cast (List.append_nil _) (Nat.max_zero _) ?_
  cases slots with
  | error cause => exact (fails cause rfl).symm
  | ok filled => rfl

end Entries

/-- Values are written so that reading their members comes to the outcome. -/
def Writes (bound : Nat) (fields : List Field) (written : Values fields)
    (values : Except Malformation (Values fields)) : Prop :=
  ∃ slots, Entries bound fields written slots values

namespace Writes

variable {α β : Type} {bound : Nat} {fields : List Field} {written : Values fields}
  {values : Except Malformation (Values fields)} {name : String} {codec : Codec α}

theorem nil : Writes bound [] () (.ok ()) := ⟨_, .nil⟩

theorem required {value : α} {outcome : Except Malformation α}
    (reads : codec.read.Reads bound (codec.write value) outcome)
    (others : Writes bound fields written values) :
    Writes bound (.required name codec :: fields) (value, written)
      (return (← outcome, ← values)) := by
  obtain ⟨slots, entries⟩ := others
  exact ⟨_, .present rfl reads entries⟩

theorem defaulting {value default : α} {outcome : Except Malformation α}
    (reads : codec.read.Reads bound (codec.write value) outcome)
    (others : Writes bound fields written values) :
    Writes bound (.defaulting name codec default :: fields) (value, written)
      (return (← outcome, ← values)) := by
  obtain ⟨slots, entries⟩ := others
  exact ⟨_, .present rfl reads entries⟩

theorem optional {outcome : α → Except Malformation α} {clause : Option α}
    (reads : ∀ value ∈ clause, codec.read.Reads bound (codec.write value) (outcome value))
    (solid : ∀ value, codec.write value ≠ .null) (others : Writes bound fields written values) :
    Writes bound (.optional name codec :: fields) (clause, written)
      (return (← clause.mapM outcome, ← values)) := by
  obtain ⟨slots, entries⟩ := others
  cases clause with
  | none => exact ⟨_, .absent rfl rfl entries⟩
  | some value =>
      refine ⟨_, .present rfl ((reads value rfl).option (Reader.firm_spelling (solid value)))
        entries⟩

theorem list {outcome : α → Except Malformation α} {elements : List α}
    (reads : ∀ value ∈ elements, codec.read.Reads bound (codec.write value) (outcome value))
    (solid : ∀ value, codec.write value ≠ .null) (others : Writes bound fields written values) :
    Writes bound (.list name codec :: fields) (elements, written)
      (return (← elements.mapM outcome, ← values)) :=
  defaulting (Reader.Reads.list reads (fun value _ => solid value)) others

theorem nonemptyList {outcome : α → Except Malformation α} {elements : List α}
    (reads : ∀ value ∈ elements, codec.read.Reads bound (codec.write value) (outcome value))
    (solid : ∀ value, codec.write value ≠ .null) (others : Writes bound fields written values) :
    Writes bound (.nonemptyList name codec :: fields) (elements, written)
      (return (← elements.mapM outcome, ← values)) := by
  obtain ⟨slots, entries⟩ := others
  cases elements with
  | nil => exact ⟨_, .absent rfl rfl entries⟩
  | cons first rest =>
      exact ⟨_, .present rfl (Reader.Reads.list reads (fun value _ => solid value)) entries⟩

/-- An optional value that reads as itself. -/
theorem ownOptional {clause : Option α}
    (reads : ∀ value, codec.read.Reads bound (codec.write value) (.ok value))
    (solid : ∀ value, codec.write value ≠ .null) (others : Writes bound fields written values) :
    Writes bound (.optional name codec :: fields) (clause, written)
      (return (clause, ← values)) := by
  have whole : Writes bound (.optional name codec :: fields) (clause, written) _ :=
    optional (fun value _ => reads value) solid others
  have same : clause.mapM (fun value => (.ok value : Except Malformation α)) = .ok clause := by
    cases clause <;> rfl
  rwa [same] at whole

/-- A list of values that read as themselves. -/
theorem ownNonemptyList {elements : List α}
    (reads : ∀ value, codec.read.Reads bound (codec.write value) (.ok value))
    (solid : ∀ value, codec.write value ≠ .null) (others : Writes bound fields written values) :
    Writes bound (.nonemptyList name codec :: fields) (elements, written)
      (return (elements, ← values)) := by
  have whole : Writes bound (.nonemptyList name codec :: fields) (elements, written) _ :=
    nonemptyList (fun value _ => reads value) solid others
  have same : elements.mapM (fun value => (.ok value : Except Malformation α)) = .ok elements :=
    (List.mapM_pure (f := fun value => value)).trans (congrArg Except.ok (List.map_id elements))
  rwa [same] at whole

end Writes

/-- A record reads what it writes as the outcomes of its fields put together. -/
theorem Record.reads {σ : Type} (record : Record σ) (value : σ) {bound : Nat}
    {values : Except Malformation (Values record.fields)}
    (writes : Writes bound record.fields (record.parts value) values)
    (distinct : (record.fields.map Field.name).Nodup) :
    record.read.Reads bound (record.write value) (record.assemble <$> values) := by
  obtain ⟨slots, entries⟩ := writes
  have inside := ((entries.fromMembers distinct).map record.assemble).nested
  have opens (levels : Nat) (rest : List Lexeme) : record.read levels ([.openBrace] ++ rest) =
      Reader.nested (record.assemble <$> fromMembers record.fields) levels rest := rfl
  have whole := Takes.agreeing [.openBrace] (fun levels rest => opens levels _) inside
  refine (whole.mono (Nat.le_succ bound)).cast ?_ ?_ rfl
  · rw [Record.write, spelling, memberSpellings_eq_map]
    rfl
  · rw [Record.write, depth, Reader.memberDepths_eq]

end SyntaxTree.Json
