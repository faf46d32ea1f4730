import SyntaxTree.Proofs.Json.Passages
import SyntaxTree.Proofs.Json.Yields

/-!
# Records are read however they are spelled

While the members of an object are read, the slots hold the values of just those fields whose names
were met, so the order of the members does not matter and what is no field changes nothing. Fields
that are not met have the values they have when left out. The elements of an array go through the
fields in order, and the array may end where all further fields may be left out.
-/

namespace SyntaxTree.Json

open Reader (Firm Takes)

/-- The lexemes stand for an element and do not close the array. -/
def Begins (lexemes : List Lexeme) : Prop :=
  ∃ first others, lexemes = first :: others ∧ first ≠ .closeBracket

theorem begins_of_firm {lexemes : List Lexeme} (firm : Firm lexemes) : Begins lexemes :=
  Takes.exists_cons_of_firm firm

/-- The slot holds what the field writes, and is read as a value of the field. -/
structure Slot.Fits (bound : Nat) (slot : Slot) (field : Field) (given read : field.Value) :
    Prop where
  name : slot.name = field.name
  writes : ∀ json, field.write given = some json → slot.value (.ofJson json)
  omits : field.write given = none → slot.omissible = true
  begins : ∀ passage, slot.value passage → Begins passage.lexemes
  reads : ∀ passage, slot.value passage →
    field.read.Takes bound passage.lexemes passage.depth (.ok read)
  absent : slot.omissible = true → field.absent = some read

namespace Slot.Fits

variable {α β : Type} {bound : Nat} {name : String} {codec : Codec α}

theorem required {spellings : Spellings} {given read : α} (firm : spellings.IsFirm)
    (meets : codec.read.Meets bound spellings (codec.write given) read) :
    (Slot.required name spellings).Fits bound (.required name codec) given read where
  name := rfl
  writes _ written := Option.some.inj written ▸ meets.writes
  omits := nofun
  begins passage spelled := begins_of_firm (firm passage spelled)
  reads := meets.reads
  absent := nofun

theorem defaulting {spellings : Spellings} {isDefault : Bool} {given read default : α}
    (firm : spellings.IsFirm) (meets : codec.read.Meets bound spellings (codec.write given) read)
    (same : isDefault = true → default = read) :
    (Slot.defaulting name spellings isDefault).Fits bound (.defaulting name codec default) given
      read where
  name := rfl
  writes _ written := Option.some.inj written ▸ meets.writes
  omits := nofun
  begins passage spelled := begins_of_firm (firm passage spelled)
  reads := meets.reads
  absent omissible := congrArg some (same omissible)

section Children

variable {spell : α → Spellings} {outcome : α → α} (firm : ∀ value, (spell value).IsFirm)

include firm

theorem optional {clause : Option α}
    (meets : ∀ value ∈ clause, codec.read.Meets bound (spell value) (codec.write value)
      (outcome value)) :
    (Slot.optional name (clause.map spell)).Fits bound (.optional name codec) clause
      (clause.map outcome) := by
  cases clause with
  | none =>
      refine ⟨rfl, nofun, fun _ => rfl, ?_, ?_, fun _ => rfl⟩
      · rintro _ rfl
        exact ⟨.null, [], rfl, by decide⟩
      · rintro _ rfl
        exact .flat (fun _ _ => rfl)
  | some value =>
      have here := meets value rfl
      refine ⟨rfl, ?_, nofun, ?_, ?_, nofun⟩
      · exact fun _ written => Option.some.inj written ▸ here.writes
      · exact fun passage spelled => begins_of_firm (firm value passage spelled)
      · exact fun passage spelled =>
          (here.reads passage spelled).option (firm value passage spelled)

theorem list {elements : List α}
    (meets : ∀ value ∈ elements, codec.read.Meets bound (spell value) (codec.write value)
      (outcome value)) :
    (Slot.list name (elements.map spell)).Fits bound (.list name codec) elements
      (elements.map outcome) := by
  refine defaulting (Spellings.isFirm_list _) (.list (fun value _ => firm value) meets) ?_
  intro empty
  rw [List.isEmpty_iff, List.map_eq_nil_iff] at empty
  rw [empty]
  rfl

theorem nonemptyList {elements : List α}
    (meets : ∀ value ∈ elements, codec.read.Meets bound (spell value) (codec.write value)
      (outcome value)) :
    (Slot.list name (elements.map spell)).Fits bound (.nonemptyList name codec) elements
      (elements.map outcome) := by
  have whole := Reader.Meets.list (fun value _ => firm value) meets
  refine ⟨rfl, ?_, ?_, ?_, whole.reads, ?_⟩
  · intro json written
    cases elements with
    | nil => cases written
    | cons first rest => exact Option.some.inj written ▸ whole.writes
  · intro unwritten
    cases elements with
    | nil => rfl
    | cons first rest => cases unwritten
  · exact fun passage spelled => begins_of_firm (Spellings.isFirm_list _ passage spelled)
  · intro omissible
    cases elements with
    | nil => rfl
    | cons first rest => cases omissible

/-- A list of values that are read as themselves. -/
theorem ownNonemptyList {elements : List α}
    (meets : ∀ value, codec.read.Meets bound (spell value) (codec.write value) value) :
    (Slot.list name (elements.map spell)).Fits bound (.nonemptyList name codec) elements
      elements := by
  have whole : (Slot.list name (elements.map spell)).Fits bound (.nonemptyList name codec) elements
      (elements.map fun value => value) := nonemptyList firm (fun value _ => meets value)
  rwa [List.map_id_fun'] at whole

end Children

/-- An optional value that is spelled and read as it is written. -/
theorem ownOptional {clause : Option α} (solid : ∀ value, codec.write value ≠ .null)
    (reads : ∀ value, codec.read.Reads bound (codec.write value) (.ok value)) :
    (Slot.optional name (clause.map (fun value => .json (codec.write value)))).Fits bound
      (.optional name codec) clause clause := by
  have whole : (Slot.optional name (clause.map (fun value => .json (codec.write value)))).Fits
      bound (.optional name codec) clause (clause.map fun value => value) :=
    optional (fun value => Spellings.isFirm_json (solid value))
      (fun value _ => .ofReads (reads value))
  rwa [Option.map_id_fun'] at whole

end Slot.Fits

/-- Slots for the fields one by one. -/
inductive Fits (bound : Nat) :
    List Slot → (fields : List Field) → (given read : Values fields) → Prop
  | nil : Fits bound [] [] () ()
  | cons {slot : Slot} {slots : List Slot} {field : Field} {fields : List Field}
      {value outcome : field.Value} {given read : Values fields}
      (here : slot.Fits bound field value outcome) (others : Fits bound slots fields given read) :
      Fits bound (slot :: slots) (field :: fields) (value, given) (outcome, read)

/-- The slots with the values of those fields whose names were met. -/
def Slots.met (names : List String) : (fields : List Field) → Values fields → Slots fields
  | [], () => ()
  | field :: rest, (value, values) =>
      (if field.name ∈ names then some value else none, met names rest values)

theorem Slots.met_congr {names others : List String} {fields : List Field}
    (same : ∀ field ∈ fields, field.name ∈ names ↔ field.name ∈ others) (values : Values fields) :
    met names fields values = met others fields values := by
  induction fields with
  | nil => rfl
  | cons field rest ih =>
      obtain ⟨value, values⟩ := values
      obtain ⟨here, later⟩ := List.forall_mem_cons.mp same
      rw [met, met, ih later]
      simp only [here]
      rfl

theorem Slots.met_nil (fields : List Field) (values : Values fields) :
    met [] fields values = empty fields := by
  induction fields with
  | nil => rfl
  | cons field rest ih => exact congrArg (none, ·) (ih values.2)

/-- A name that no field has is left to be skipped. -/
theorem Slots.member_eq_none {fields : List Field} {name : String}
    (unknown : name ∉ fields.map Field.name) (slots : Slots fields) :
    slots.member fields name = none := by
  induction fields with
  | nil => rfl
  | cons field rest ih =>
      obtain ⟨slot, slots⟩ := slots
      simp only [List.map_cons, List.mem_cons, not_or] at unknown
      simp only [member, if_neg (Ne.symm unknown.1), ih unknown.2]
      rfl

theorem Record.member_known {fields : List Field} {slots : Slots fields} {name : String}
    {reader : Reader (Slots fields)} (known : slots.member fields name = some reader)
    (levels : Nat) (rest : List Lexeme) :
    Record.member fields slots levels (.text (some name) :: rest) = reader levels rest := by
  simp only [Record.member, Bind.bind, Reader.name, known]

theorem Record.member_unknown {fields : List Field} {slots : Slots fields} {name : String}
    (unknown : slots.member fields name = none) (levels : Nat) (rest : List Lexeme) :
    Record.member fields slots levels (.text (some name) :: rest) =
      (Reader.punctuation .colon >>= fun _ => Reader.skip >>= fun _ =>
        (pure slots : Reader (Slots fields))) levels rest := by
  simp only [Record.member, Bind.bind, Reader.name, unknown]

/-- The member holds the value of one of the slots. -/
def Slot.Own (slots : List Slot) (member : String × Passage) : Prop :=
  ∃ slot ∈ slots, slot.name = member.1 ∧ slot.value member.2

namespace Slot.Chosen

variable {slots : List Slot} {members : List (String × Passage)}

theorem own (chosen : Chosen slots members) : ∀ member ∈ members, Own slots member := by
  induction chosen with
  | nil => exact nofun
  | omitted _ _ ih =>
      intro member within
      obtain ⟨slot, listed, spells⟩ := ih member within
      exact ⟨slot, List.mem_cons_of_mem _ listed, spells⟩
  | @written slot slots passage members spelled _ ih =>
      rw [List.forall_mem_cons]
      refine ⟨⟨slot, List.mem_cons_self, rfl, spelled⟩, fun member within => ?_⟩
      obtain ⟨slot, listed, spells⟩ := ih member within
      exact ⟨slot, List.mem_cons_of_mem _ listed, spells⟩

theorem names_sublist (chosen : Chosen slots members) :
    (members.map Prod.fst).Sublist (slots.map Slot.name) := by
  induction chosen with
  | nil => exact .slnil
  | omitted _ _ ih => exact ih.cons _
  | written _ _ ih => exact ih.cons_cons _

/-- A field whose member was not chosen may be left out. -/
theorem met (chosen : Chosen slots members) :
    ∀ slot ∈ slots, slot.name ∈ members.map Prod.fst ∨ slot.omissible = true := by
  induction chosen with
  | nil => exact nofun
  | omitted omissible _ ih => exact List.forall_mem_cons.mpr ⟨.inr omissible, ih⟩
  | written _ _ ih =>
      rw [List.forall_mem_cons]
      refine ⟨.inl List.mem_cons_self, fun slot listed => ?_⟩
      exact (ih slot listed).imp_left (List.mem_cons_of_mem _)

end Slot.Chosen

namespace Fits

variable {bound : Nat} {slots : List Slot} {fields : List Field} {given read : Values fields}

theorem names (fits : Fits bound slots fields given read) :
    slots.map Slot.name = fields.map Field.name := by
  induction fits with
  | nil => rfl
  | cons here _ ih => rw [List.map_cons, List.map_cons, here.name, ih]

/-! ### Members in any order -/

/-- A member of a name that was not met fills its slot. -/
theorem member_own (fits : Fits bound slots fields given read)
    (distinct : (fields.map Field.name).Nodup) {member : String × Passage}
    (own : Slot.Own slots member) {names : List String} (unmet : member.1 ∉ names) :
    ∃ reader, (Slots.met names fields read).member fields member.1 = some reader ∧
      reader.Takes bound (.colon :: member.2.lexemes) member.2.depth
        (.ok (Slots.met (member.1 :: names) fields read)) := by
  induction fits with
  | nil =>
      obtain ⟨slot, within, -⟩ := own
      cases within
  | @cons slot slots field fields value outcome given read here others ih =>
      obtain ⟨unique, distinct⟩ := List.nodup_cons.mp distinct
      by_cases same : field.name = member.1
      · -- Later fields have other names, so the member is the one of this slot.
        have spelled : slot.value member.2 := by
          obtain ⟨other, within, named, spelled⟩ := own
          rcases List.mem_cons.mp within with rfl | later
          · exact spelled
          · refine absurd ?_ unique
            rw [← others.names, same, ← named]
            exact List.mem_map_of_mem later
        have empty : field.name ∉ names := same ▸ unmet
        have further : Slots.met names fields read = Slots.met (member.1 :: names) fields read := by
          refine Slots.met_congr (fun later within => ?_) read
          have different : later.name ≠ member.1 := fun equal =>
            unique (same.trans equal.symm ▸ List.mem_map_of_mem within)
          simp [different]
        let fills : Reader (Slots (field :: fields)) := do
          Reader.punctuation .colon
          let value ← field.read
          return (some value, Slots.met names fields read)
        have filled : fills.Takes bound ([.colon] ++ (member.2.lexemes ++ []))
            (max 0 (max member.2.depth 0)) (.ok (some outcome, Slots.met names fields read)) :=
          .followed (.mark .colon) (.followed (here.reads member.2 spelled) (.done _))
        refine ⟨fills, ?_, filled.cast (by simp) (by simp) ?_⟩
        · simp only [Slots.met, Slots.member, if_pos same, if_neg empty]
          rfl
        · rw [Slots.met, if_pos (List.mem_cons.mpr (.inl same)), ← further]
      · have later : Slot.Own slots member := by
          obtain ⟨other, within, named, spelled⟩ := own
          rcases List.mem_cons.mp within with rfl | later
          · exact absurd (here.name.symm.trans named) same
          · exact ⟨other, later, named, spelled⟩
        obtain ⟨reader, found, takes⟩ := ih distinct later
        let passes : Reader (Slots (field :: fields)) :=
          (fun slots => (if field.name ∈ names then some outcome else none, slots)) <$> reader
        have passed : passes.Takes bound (.colon :: member.2.lexemes) member.2.depth
            (.ok (if field.name ∈ names then some outcome else none,
              Slots.met (member.1 :: names) fields read)) := takes.map _
        refine ⟨passes, ?_, passed.cast rfl rfl ?_⟩
        · simp only [Slots.met, Slots.member, if_neg same, found]
          rfl
        · have unchanged : field.name ∈ member.1 :: names ↔ field.name ∈ names := by simp [same]
          simp only [Slots.met, unchanged]

/-- A member is one of the record, of a name that was not met, or it is skipped. -/
theorem member_takes (fits : Fits bound slots fields given read)
    (distinct : (fields.map Field.name).Nodup) {member : String × Passage}
    (admissible : Slot.Own slots member ∨ Slot.Foreign slots member) {names : List String}
    (unmet : member.1 ∈ slots.map Slot.name → member.1 ∉ names) :
    (Record.member fields (Slots.met names fields read)).Takes bound
      (memberLexemes member.1 member.2.lexemes) member.2.depth
      (.ok (Slots.met (member.1 :: names) fields read)) := by
  rcases admissible with own | foreign
  · have named : member.1 ∈ slots.map Slot.name := by
      obtain ⟨other, within, named, -⟩ := own
      exact named ▸ List.mem_map_of_mem within
    obtain ⟨reader, found, takes⟩ := fits.member_own distinct own (unmet named)
    refine Takes.agreeing [.text (some member.1)] (fun levels rest => ?_) takes
    exact Record.member_known found levels _
  · have unknown : member.1 ∉ fields.map Field.name := fits.names ▸ foreign.unknown
    have unchanged : Slots.met names fields read = Slots.met (member.1 :: names) fields read := by
      refine Slots.met_congr (fun field within => ?_) read
      have different : field.name ≠ member.1 := fun equal =>
        unknown (equal ▸ List.mem_map_of_mem within)
      simp [different]
    have skipped : (Reader.punctuation .colon >>= fun _ => Reader.skip >>= fun _ =>
        (pure (Slots.met names fields read) : Reader (Slots fields))).Takes bound
          ([.colon] ++ (member.2.lexemes ++ [])) (max 0 (max 0 0))
          (.ok (Slots.met names fields read)) :=
      .followed (.mark .colon) (.followed (foreign.value.skip_takes bound) (.done _))
    rw [← unchanged]
    refine (Takes.agreeing [.text (some member.1)] (fun levels rest => ?_) skipped).cast
      (by simp [memberLexemes]) (by simp [foreign.skipped]) rfl
    exact Record.member_unknown (Slots.member_eq_none unknown _) levels _

theorem moreMembers (fits : Fits bound slots fields given read)
    (distinct : (fields.map Field.name).Nodup) {members : List (String × Passage)}
    (admissible : ∀ member ∈ members, Slot.Own slots member ∨ Slot.Foreign slots member)
    (once : members.Pairwise (fun first second =>
      first.1 = second.1 → first.1 ∉ slots.map Slot.name))
    {names : List String}
    (unmet : ∀ member ∈ members, member.1 ∈ slots.map Slot.name → member.1 ∉ names) (steps : Nat)
    (enough : members.length < steps) :
    (Record.moreMembers fields steps (Slots.met names fields read)).Takes bound
      (members.flatMap (fun member => .comma :: memberLexemes member.1 member.2.lexemes) ++
        [.closeBrace])
      (Takes.deepest (fun member => member.2.depth) members)
      (.ok (Slots.met ((members.map Prod.fst).reverse ++ names) fields read)) := by
  induction members generalizing names steps with
  | nil =>
      obtain ⟨steps, rfl⟩ := Nat.exists_eq_succ_of_ne_zero (Nat.ne_of_gt enough)
      exact .flat (fun _ _ => rfl)
  | cons member rest ih =>
      obtain ⟨steps, rfl⟩ := Nat.exists_eq_succ_of_ne_zero (Nat.ne_of_gt (Nat.zero_lt_of_lt enough))
      obtain ⟨here, later⟩ := List.forall_mem_cons.mp admissible
      obtain ⟨apart, once⟩ := List.pairwise_cons.mp once
      obtain ⟨first, others⟩ := List.forall_mem_cons.mp unmet
      have further : ∀ other ∈ rest, other.1 ∈ slots.map Slot.name →
          other.1 ∉ member.1 :: names := by
        intro other within known
        rw [List.mem_cons, not_or]
        refine ⟨fun same => ?_, others other within known⟩
        exact apart other within same.symm (same ▸ known)
      have remaining := ih later once further steps (Nat.lt_of_succ_lt_succ enough)
      have both := (fits.member_takes distinct here first).followed remaining
      refine (Takes.agreeing [.comma] (fun levels more => ?_) both).cast ?_ rfl ?_
      · simp only [List.cons_append, List.nil_append, Record.moreMembers, Bind.bind]
        cases Record.member fields (Slots.met names fields read) levels _ <;> rfl
      · simp [List.append_assoc]
      · simp [List.append_assoc]

/-- The slots of the fields that were met hold all values, if the others may be left out. -/
theorem values_met (fits : Fits bound slots fields given read) {names : List String}
    (filled : ∀ slot ∈ slots, slot.name ∈ names ∨ slot.omissible = true) :
    (Slots.met names fields read).values fields = .ok read := by
  induction fits with
  | nil => rfl
  | @cons slot slots field fields value outcome given read here others ih =>
      obtain ⟨first, later⟩ := List.forall_mem_cons.mp filled
      have found : (if field.name ∈ names then some outcome else none).or field.absent =
          some outcome := by
        split
        · rfl
        · rename_i unmet
          rw [here.name] at first
          rw [Option.none_or, here.absent (first.resolve_left unmet)]
      rw [Slots.met, Slots.values, found, ih later]
      rfl

/-- Chosen members of the fields among foreign ones, in any order. -/
theorem fromMembers (fits : Fits bound slots fields given read)
    (distinct : (fields.map Field.name).Nodup) {own added members : List (String × Passage)}
    (chosen : Slot.Chosen slots own) (foreign : ∀ member ∈ added, Slot.Foreign slots member)
    (perm : members.Perm (own ++ added)) :
    (Record.fromMembers fields).Takes bound
      ([.comma].intercalate (members.map (fun member =>
        memberLexemes member.1 member.2.lexemes)) ++ [.closeBrace])
      (Takes.deepest (fun member => member.2.depth) members) (.ok read) := by
  have admissible : ∀ member ∈ members, Slot.Own slots member ∨ Slot.Foreign slots member := by
    intro member within
    rcases List.mem_append.mp (perm.mem_iff.mp within) with here | there
    · exact .inl (chosen.own member here)
    · exact .inr (foreign member there)
  have once : members.Pairwise (fun first second =>
      first.1 = second.1 → first.1 ∉ slots.map Slot.name) := by
    have symmetric {first second : String × Passage}
        (apart : first.1 = second.1 → first.1 ∉ slots.map Slot.name) (same : second.1 = first.1) :
        second.1 ∉ slots.map Slot.name := same ▸ apart same.symm
    rw [perm.pairwise_iff symmetric, List.pairwise_append]
    refine ⟨?_, ?_, ?_⟩
    · have names : (own.map Prod.fst).Nodup := chosen.names_sublist.nodup (fits.names ▸ distinct)
      exact (List.pairwise_map.mp names).imp (fun apart same => absurd same apart)
    · exact List.pairwise_of_forall_mem_list
        (fun first within _ _ _ => (foreign first within).unknown)
    · exact fun first _ second within same => same ▸ (foreign second within).unknown
  have further (steps : Nat) (enough : members.length < steps) :=
    fits.moreMembers distinct admissible once (fun _ _ _ => List.not_mem_nil) steps enough
  simp only [Slots.met_nil, List.append_nil] at further
  have collected : (Slots.met (members.map Prod.fst).reverse fields read).values fields =
      .ok read := by
    refine fits.values_met (fun slot listed => (chosen.met slot listed).imp_left (fun met => ?_))
    rw [List.mem_reverse, (perm.map Prod.fst).mem_iff, List.map_append]
    exact List.mem_append_left _ met
  rw [Entries.fromMembers_eq]
  refine ((Entries.slotsReader_takes further).followed ?_).cast (List.append_nil _)
    (Nat.max_zero _) rfl
  rw [collected]
  exact .done read

/-! ### Elements in order -/

theorem remaining (fits : Fits bound slots fields given read)
    (omissible : ∀ slot ∈ slots, slot.omissible = true) (expected : String) (position : Nat) :
    Record.remaining expected fields position = .ok read := by
  induction fits generalizing position with
  | nil => rfl
  | cons here others ih =>
      obtain ⟨first, later⟩ := List.forall_mem_cons.mp omissible
      rw [Record.remaining, here.absent first, ih later]
      rfl

/-- An array that ends before fields that may all be left out. -/
theorem closed (fits : Fits bound slots fields given read)
    (omissible : ∀ slot ∈ slots, slot.omissible = true) (expected : String) (position : Nat) :
    (Record.fromElements expected fields position).Takes bound [.closeBracket] 0 (.ok read) := by
  have left := fits.remaining omissible expected position
  cases fits with
  | nil => exact .flat (fun _ _ => rfl)
  | cons here others =>
      refine .flat (fun levels rest => ?_)
      simp only [List.cons_append, List.nil_append, Record.fromElements, left]
      rfl

/-- An element and those after it, without the comma before it. -/
theorem element {slot : Slot} {field : Field} {value outcome : field.Value}
    (here : slot.Fits bound field value outcome) {passage : Passage}
    (spelled : slot.value passage) {expected : String} {position depth : Nat}
    {others : List Lexeme}
    (later : (Record.fromElements expected fields (position + 1)).Takes bound others depth
      (.ok read)) :
    (field.read >>= fun value =>
      Record.fromElements expected fields (position + 1) >>= fun values =>
        (pure (value, values) : Reader (Values (field :: fields)))).Takes bound
      (passage.lexemes ++ others) (max passage.depth depth) (.ok (outcome, read)) := by
  have whole : (Record.fromElements expected fields (position + 1) >>= fun values =>
      (pure (outcome, values) : Reader (Values (field :: fields)))).Takes bound (others ++ [])
      (max depth 0) (.ok (outcome, read)) := later.followed (.done _)
  rw [List.append_nil, Nat.max_zero] at whole
  exact (here.reads passage spelled).followed whole

/-- Elements for the fields from a position on, each behind a comma, as far as there are any. -/
theorem moreElements (fits : Fits bound slots fields given read) {elements : List Passage}
    (listed : Slot.Listed slots elements) (expected : String) {position : Nat}
    (further : position ≠ 0) :
    (Record.fromElements expected fields position).Takes bound
      (elements.flatMap (fun element => .comma :: element.lexemes) ++ [.closeBracket])
      (Takes.deepest Passage.depth elements) (.ok read) := by
  induction listed generalizing fields position with
  | cut omissible => exact fits.closed omissible expected position
  | written spelled listed ih =>
      cases fits with
      | cons here others =>
          have values := element here spelled (ih others (Nat.succ_ne_zero position))
          refine (Takes.agreeing [.comma] (fun levels rest => ?_) values).cast (by simp) rfl rfl
          have opens : (.comma : Lexeme) ≠ .closeBracket := nofun
          refine (Record.fromElements_cons opens).trans ?_
          rw [if_neg further]
          rfl

theorem fromElements (fits : Fits bound slots fields given read) {elements : List Passage}
    (listed : Slot.Listed slots elements) (expected : String) :
    (Record.fromElements expected fields 0).Takes bound
      ([.comma].intercalate (elements.map Passage.lexemes) ++ [.closeBracket])
      (Takes.deepest Passage.depth elements) (.ok read) := by
  cases listed with
  | cut omissible => exact fits.closed omissible expected 0
  | @written slot slots passage elements spelled listed =>
      cases fits with
      | cons here others =>
          have values := element here spelled
            (others.moreElements listed expected Nat.one_ne_zero)
          obtain ⟨opening, others, begins, opens⟩ := here.begins passage spelled
          rw [List.map_cons, intercalate_cons, List.flatMap_map, List.append_assoc]
          refine (Takes.agreeing [] (fun levels rest => ?_) values).cast rfl rfl rfl
          rw [begins]
          exact Record.fromElements_cons opens

/-- The members that are written are chosen ones. -/
theorem chosen (fits : Fits bound slots fields given read) :
    Slot.Chosen slots ((Record.members fields given).map (fun member =>
      (member.1, Passage.ofJson member.2))) := by
  induction fits with
  | nil => exact .nil
  | @cons slot slots field fields value outcome given read here others ih =>
      rw [Record.members, List.map_append]
      cases written : field.write value with
      | none => exact .omitted (here.omits written) ih
      | some json =>
          have member := Slot.Chosen.written (here.writes json written) ih
          rw [here.name] at member
          exact member

end Fits

/-- A record is read in each way it is spelled, and is written in one of them. -/
theorem Record.meets {σ : Type} (record : Record σ) (given : σ) {manner : Manner} {bound : Nat}
    {slots : List Slot} {values : Values record.fields}
    (fits : Fits bound slots record.fields (record.parts given) values)
    (distinct : (record.fields.map Field.name).Nodup) :
    record.read.Meets bound (.record manner slots) (record.write given)
      (record.assemble values) where
  writes := by
    refine .inl ⟨_, [], _, fits.chosen, nofun, ?_, Passage.ofJson_object _⟩
    rw [List.append_nil]
  reads := by
    rintro _ (⟨own, added, members, chosen, foreign, perm, rfl⟩ | ⟨-, elements, listed, rfl⟩)
    · have inside := ((fits.fromMembers distinct chosen foreign perm).map record.assemble).nested
      exact (Takes.agreeing [.openBrace] (fun _ _ => rfl) inside).mono (Nat.le_succ bound)
    · have inside :=
        ((fits.fromElements listed record.lengthDescription).map record.assemble).nested
      exact (Takes.agreeing [.openBracket] (fun _ _ => rfl) inside).mono (Nat.le_succ bound)

end SyntaxTree.Json
