import SyntaxTree.Proofs.Json.TakesRecords
import SyntaxTree.Proofs.Json.Yields
import SyntaxTree.Proofs.TrimmedReading

/-!
# Records overlook vacant clauses

A record whose optional clauses may be vacant is read alike from an array or an object and from the
same without those clauses. Of an array, the fields are read one after another on both sides. Of an
object, the slots of the clauses that are left out stay empty on one side, while on the other a
value that stands for nothing comes into them at some time.
-/

namespace SyntaxTree.Json

open Reader (Agrees Overlooks)

variable {levels : Nat} {clauses : List String}

/-- The field has a value when it is left out, and reads null as that value, and any vacant phrase as
one that stands for it. -/
structure Field.Vacates (field : Field) (levels : Nat)
    (related : field.Value → field.Value → Prop) (default : field.Value) : Prop where
  absent : field.absent = some default
  null : ∀ rest, field.read levels (.null :: rest) = .ok (default, rest)
  vacant : ∀ phrase : Phrase, phrase.isVacant = true → phrase.depth ≤ levels →
    ∃ value, (∀ rest, field.read levels (phrase.lexemes ++ rest) = .ok (value, rest)) ∧
      related value default

/-- The field overlooks vacant clauses within it, and may be vacant itself if it is a clause. -/
structure Field.Overlooks (field : Field) (levels : Nat) (clauses : List String)
    (related : field.Value → field.Value → Prop) : Prop where
  plain : Layout.ofName (some field.name) = {}
  read : field.read.Overlooks levels {} related
  absent : ∀ value, field.absent = some value → related value value
  vacates : field.name ∈ clauses → ∃ default, field.Vacates levels related default

/-- Fields that overlook vacant clauses, and how the values of all of them are related. -/
inductive Overlooking (levels : Nat) (clauses : List String) :
    (fields : List Field) → (Values fields → Values fields → Prop) → Prop where
  | nil : Overlooking levels clauses [] (fun _ _ => True)
  | cons {field : Field} {fields : List Field} {related : field.Value → field.Value → Prop}
      {relations : Values fields → Values fields → Prop}
      (first : field.Overlooks levels clauses related)
      (others : Overlooking levels clauses fields relations) :
      Overlooking levels clauses (field :: fields)
        (fun values counterparts => related values.1 counterparts.1 ∧
          relations values.2 counterparts.2)

/-! ### Arrays -/

/-- What is left of an array from a position on. All its elements but the first follow a comma. -/
def elementsFrom (position : Nat) (elements : List Phrase) : List Lexeme :=
  match position with
  | 0 => [.comma].intercalate (elements.map Phrase.lexemes) ++ [.closeBracket]
  | _ + 1 => elements.flatMap (fun element => .comma :: element.lexemes) ++ [.closeBracket]

theorem elementsFrom_nil (position : Nat) : elementsFrom position [] = [.closeBracket] := by
  cases position <;> rfl

theorem fromElements_closed (expected : String) (fields : List Field) (position levels : Nat)
    (rest : List Lexeme) :
    Record.fromElements expected fields position levels (.closeBracket :: rest) =
      Reader.ofExcept (Record.remaining expected fields position) levels rest := by
  cases fields with
  | nil => rfl
  | cons field fields =>
      simp only [Record.fromElements]
      cases Record.remaining expected (field :: fields) position <;> rfl

/-- An element that is there is read for the first field that is left. -/
theorem fromElements_element (expected : String) (field : Field) (fields : List Field)
    (position levels : Nat) (element : Phrase) (elements : List Phrase) (rest : List Lexeme) :
    Record.fromElements expected (field :: fields) position levels
        (elementsFrom position (element :: elements) ++ rest) =
      (field.read >>= fun value =>
        (value, ·) <$> Record.fromElements expected fields (position + 1)) levels
        (element.lexemes ++ (elementsFrom (position + 1) elements ++ rest)) := by
  obtain ⟨opening, others, equal, opens⟩ := element.exists_lexemes_eq_cons
  cases position with
  | zero =>
      simp only [elementsFrom, List.map_cons, intercalate_cons, List.flatMap_map, List.append_assoc,
        equal, List.cons_append]
      rw [Record.fromElements_cons opens]
      rfl
  | succ position =>
      simp only [elementsFrom, List.flatMap_cons, List.append_assoc, List.cons_append]
      rw [Record.fromElements_cons (by decide)]
      rfl

/-- An element for which no field is left is too much. -/
theorem fromElements_excess (expected : String) (position levels : Nat) (element : Phrase)
    (elements : List Phrase) (rest : List Lexeme) :
    Record.fromElements expected [] position levels
        (elementsFrom position (element :: elements) ++ rest) = .error (.fault .invalid) := by
  obtain ⟨opening, others, equal, opens⟩ := element.exists_lexemes_eq_cons
  cases position with
  | zero =>
      simp only [elementsFrom, List.map_cons, intercalate_cons, equal, List.cons_append,
        Record.fromElements, Bind.bind, Reader.punctuation, if_neg opens]
      rfl
  | succ position => rfl

/-- A field that is left out is read as its value and those of the fields behind it. -/
theorem fromElements_absent {field : Field} {default : field.Value}
    (absent : field.absent = some default) (expected : String) (fields : List Field)
    (position levels : Nat) (rest : List Lexeme) :
    Record.fromElements expected (field :: fields) position levels (.closeBracket :: rest) =
      ((default, ·) <$> Record.fromElements expected fields (position + 1)) levels
        (.closeBracket :: rest) := by
  simp only [Functor.map, fromElements_closed, Record.remaining, absent]
  cases Record.remaining expected fields (position + 1) <;> rfl

section Elements

variable {field : Field} {fields : List Field} {expected : String} {position : Nat}
  {element : Phrase} {rest others : List Phrase}
  {consequence : Values (field :: fields) → Values (field :: fields) → Prop}

/-- A vacant element in front of others, or null or nothing in its place if nothing follows it. -/
theorem fromElements_vacant {value default : field.Value}
    {related : field.Value → field.Value → Prop} (vacates : field.Vacates levels related default)
    (reads : ∀ rest, field.read levels (element.lexemes ++ rest) = .ok (value, rest))
    (agrees : Agrees levels consequence
      ((value, ·) <$> Record.fromElements expected fields (position + 1))
      (elementsFrom (position + 1) rest)
      ((default, ·) <$> Record.fromElements expected fields (position + 1))
      (elementsFrom (position + 1) others)) :
    Agrees levels consequence (Record.fromElements expected (field :: fields) position)
      (elementsFrom position (element :: rest))
      (Record.fromElements expected (field :: fields) position)
      (elementsFrom position (if others.isEmpty then [] else .null :: others)) := by
  intro after other
  have whole := agrees after other
  rw [fromElements_element]
  simp only [Bind.bind, reads]
  split
  case isTrue empty =>
      rw [List.isEmpty_iff.mp empty, elementsFrom_nil] at whole
      rw [elementsFrom_nil, List.singleton_append, fromElements_absent vacates.absent]
      exact whole
  case isFalse =>
      rw [fromElements_element]
      simp only [Bind.bind, Phrase.lexemes, List.singleton_append, vacates.null]
      exact whole

/-- Elements that are read alike, in front of others. -/
theorem fromElements_read {counterpart : Phrase} {related : field.Value → field.Value → Prop}
    (read : Agrees levels related field.read element.lexemes field.read counterpart.lexemes)
    (agrees : ∀ value default, related value default → Agrees levels consequence
      ((value, ·) <$> Record.fromElements expected fields (position + 1))
      (elementsFrom (position + 1) rest)
      ((default, ·) <$> Record.fromElements expected fields (position + 1))
      (elementsFrom (position + 1) others)) :
    Agrees levels consequence (Record.fromElements expected (field :: fields) position)
      (elementsFrom position (element :: rest))
      (Record.fromElements expected (field :: fields) position)
      (elementsFrom position (counterpart :: others)) := by
  intro after other
  have whole := read.andThen agrees after other
  rw [List.append_assoc, List.append_assoc] at whole
  rw [fromElements_element, fromElements_element]
  exact whole

end Elements

namespace Overlooking

theorem remaining_related {fields : List Field} {relations : Values fields → Values fields → Prop}
    (overlooking : Overlooking levels clauses fields relations) {expected : String}
    {position : Nat} {values : Values fields}
    (filled : Record.remaining expected fields position = .ok values) :
    relations values values := by
  induction overlooking generalizing position with
  | nil => trivial
  | @cons field fields related relations first others ih =>
      unfold Record.remaining at filled
      split at filled
      · cases filled
      · rename_i value absent
        cases further : Record.remaining expected fields (position + 1) with
        | error error => rw [further] at filled; cases filled
        | ok values =>
            rw [further] at filled
            cases filled
            exact ⟨first.absent value absent, ih further⟩

theorem fromElements {fields : List Field} {relations : Values fields → Values fields → Prop}
    (overlooking : Overlooking levels clauses fields relations) (expected : String)
    (position : Nat) {names : List String} (named : names <+: fields.map Field.name)
    {elements : List Phrase} (shallow : ∀ element ∈ elements, element.depth ≤ levels) :
    Agrees levels relations (Record.fromElements expected fields position)
      (elementsFrom position elements) (Record.fromElements expected fields position)
      (elementsFrom position (Phrase.trimmedElements clauses names elements)) := by
  induction overlooking generalizing position names elements with
  | nil =>
      obtain rfl : names = [] := List.prefix_nil.mp named
      rw [Phrase.trimmedElements_nil]
      cases elements with
      | nil => cases position <;> exact fun _ _ => .taken trivial rfl rfl
      | cons element rest =>
          exact fun _ _ => .refused (fromElements_excess ..) (fromElements_excess ..)
  | @cons field fields related relations first others ih =>
      cases elements with
      | nil =>
          intro rest other
          rw [Phrase.trimmedElements, elementsFrom_nil, List.singleton_append,
            List.singleton_append, fromElements_closed, fromElements_closed]
          cases filled : Record.remaining expected (field :: fields) position with
          | error error => exact .refused rfl rfl
          | ok values => exact .taken ((cons first others).remaining_related filled) rfl rfl
      | cons element rest =>
          obtain ⟨here, later⟩ := List.forall_mem_cons.mp shallow
          have behind : names.tail <+: fields.map Field.name := by
            cases names with
            | nil => exact List.nil_prefix
            | cons name names => exact (List.cons_prefix_cons.mp named).2
          have pairs (value counterpart : field.Value) (holds : related value counterpart) :
              Agrees levels (fun values counterparts => related values.1 counterparts.1 ∧
                  relations values.2 counterparts.2)
                ((value, ·) <$> Record.fromElements expected fields (position + 1))
                (elementsFrom (position + 1) rest)
                ((counterpart, ·) <$> Record.fromElements expected fields (position + 1))
                (elementsFrom (position + 1) (Phrase.trimmedElements clauses names.tail rest)) :=
            (ih (position + 1) behind later).map (fun _ _ further => ⟨holds, further⟩)
          simp only [Phrase.trimmedElements]
          split
          case isTrue gone =>
              obtain ⟨vacant, clausal⟩ := Bool.and_eq_true_iff.mp gone
              have clause : field.name ∈ clauses := by
                cases names with
                | nil => cases clausal
                | cons name names =>
                    obtain ⟨rfl, -⟩ := List.cons_prefix_cons.mp named
                    exact List.contains_iff_mem.mp clausal
              obtain ⟨default, vacates⟩ := first.vacates clause
              obtain ⟨value, reads, holds⟩ := vacates.vacant element vacant here
              exact fromElements_vacant vacates reads (pairs value default holds)
          case isFalse => exact fromElements_read (first.read element here) pairs

end Overlooking

/-! ### Objects -/

/--
How the slots of two records go on: names that are left out on one side come up at most once more on
the other, and only as one of those that are pending. A member of another name is taken alike.
-/
structure SlotInvariant (levels : Nat) (leftOut : List String) (fields : List Field)
    (relations : Values fields → Values fields → Prop)
    (invariant : List String → Slots fields → Slots fields → Prop) : Prop where
  start : ∀ pending, invariant pending (Slots.empty fields) (Slots.empty fields)
  fewer : ∀ {name pending slots others}, invariant (name :: pending) slots others →
    invariant pending slots others
  kept : ∀ {name pending slots others}, name ∉ leftOut → invariant pending slots others →
    (slots.member fields name = none ∧ others.member fields name = none) ∨
      ∃ reader counterpart, slots.member fields name = some reader ∧
        others.member fields name = some counterpart ∧
        ∀ phrase : Phrase, phrase.depth ≤ levels →
          Agrees levels (invariant pending) reader ([.colon] ++ phrase.lexemes) counterpart
            ([.colon] ++ (phrase.trimmed (.ofName (some name))).lexemes)
  vacated : ∀ {name pending slots others}, name ∈ leftOut → name ∈ fields.map Field.name →
    name ∉ pending → invariant (name :: pending) slots others →
    ∃ reader, slots.member fields name = some reader ∧
      ∀ phrase : Phrase, phrase.isVacant = true → phrase.depth ≤ levels →
        ∃ filled, invariant pending filled others ∧
          ∀ rest, reader levels ([.colon] ++ phrase.lexemes ++ rest) = .ok (filled, rest)
  values : ∀ {pending slots others}, invariant pending slots others →
    Agrees levels relations (Reader.ofExcept (slots.values fields)) []
      (Reader.ofExcept (others.values fields)) []

/-- What the slots of one field may hold on both sides. -/
inductive SlotsAlike (field : Field) (related : field.Value → field.Value → Prop)
    (leftOut pending : List String) : Option field.Value → Option field.Value → Prop where
  | empty : SlotsAlike field related leftOut pending none none
  | read {value counterpart : field.Value} (stays : field.name ∉ leftOut)
      (holds : related value counterpart) :
      SlotsAlike field related leftOut pending (some value) (some counterpart)
  | vacant {value default : field.Value} (gone : field.name ∈ leftOut)
      (passed : field.name ∉ pending) (absent : field.absent = some default)
      (stands : related value default) :
      SlotsAlike field related leftOut pending (some value) none

theorem SlotsAlike.fewer {field : Field} {related : field.Value → field.Value → Prop}
    {leftOut pending : List String} {name : String} {slot other : Option field.Value}
    (alike : SlotsAlike field related leftOut (name :: pending) slot other) :
    SlotsAlike field related leftOut pending slot other := by
  cases alike with
  | empty => exact .empty
  | read stays holds => exact .read stays holds
  | vacant gone passed absent stands =>
      exact .vacant gone (fun member => passed (List.mem_cons_of_mem _ member)) absent stands

theorem ofExcept_map {α β : Type} (f : α → β) (answer : Except DataError α) :
    Reader.ofExcept (answer.map f) = f <$> Reader.ofExcept answer := by
  cases answer <;> rfl

/-- The rest of the first field's member, which is taken unless the slot of the field is filled. -/
def firstMember {field : Field} {fields : List Field} (slot : Option field.Value)
    (slots : Slots fields) : Reader (Slots (field :: fields)) :=
  match slot with
  | some _ => Reader.failData (.duplicateField field.name)
  | none => do
      Reader.punctuation .colon
      let value ← field.read
      return (some value, slots)

theorem member_first {field : Field} {fields : List Field} (slot : Option field.Value)
    (slots : Slots fields) :
    Slots.member (field :: fields) field.name (slot, slots) = some (firstMember slot slots) := by
  simp only [Slots.member, if_true]
  cases slot <;> rfl

theorem member_behind {field : Field} {fields : List Field} {name : String}
    (other : field.name ≠ name) (slot : Option field.Value) (slots : Slots fields) :
    Slots.member (field :: fields) name (slot, slots) =
      (slots.member fields name).map (fun reader => (slot, ·) <$> reader) := by
  simp only [Slots.member, if_neg other]
  rfl

section First

variable {field : Field} {fields : List Field} {related : field.Value → field.Value → Prop}
  {relations : Values fields → Values fields → Prop} {leftOut pending : List String}
  {invariant : List String → Slots fields → Slots fields → Prop}
  {slot other : Option field.Value} {slots others : Slots fields}

/-- What holds of the first slots, and of those behind them. -/
def SlotsAlike.Joined (related : field.Value → field.Value → Prop) (leftOut : List String)
    (invariant : List String → Slots fields → Slots fields → Prop) (pending : List String)
    (slots others : Slots (field :: fields)) : Prop :=
  SlotsAlike field related leftOut pending slots.1 others.1 ∧ invariant pending slots.2 others.2

/-- The first field is read alike on both sides, if it is not left out on one of them. -/
theorem SlotsAlike.firstMember_agrees (first : field.Overlooks levels clauses related)
    (stays : field.name ∉ leftOut) (alike : SlotsAlike field related leftOut pending slot other)
    (holds : invariant pending slots others) {phrase : Phrase} (shallow : phrase.depth ≤ levels) :
    Agrees levels (SlotsAlike.Joined related leftOut invariant pending) (firstMember slot slots)
      ([.colon] ++ phrase.lexemes) (firstMember other others)
      ([.colon] ++ (phrase.trimmed (.ofName (some field.name))).lexemes) := by
  cases alike with
  | empty =>
      rw [first.plain]
      refine ((Agrees.mark .colon .colon).andThen (fun _ _ _ =>
        (first.read phrase shallow).andThen (fun _ _ read => .done ?_))).cast (by simp) (by simp)
      exact ⟨.read stays read, holds⟩
  | read _ _ => exact .failing _
  | vacant gone _ _ _ => exact absurd gone stays

/-- What is left out on one side stands for the same on the other, as long as it is met once. -/
theorem SlotsAlike.firstMember_vacant {default : field.Value}
    (vacates : field.Vacates levels related default) (gone : field.name ∈ leftOut)
    (unique : field.name ∉ pending)
    (alike : SlotsAlike field related leftOut (field.name :: pending) slot other)
    (holds : invariant pending slots others) {phrase : Phrase} (vacant : phrase.isVacant = true)
    (shallow : phrase.depth ≤ levels) :
    ∃ filled, SlotsAlike.Joined related leftOut invariant pending filled (other, others) ∧
      ∀ rest, firstMember slot slots levels ([.colon] ++ phrase.lexemes ++ rest) =
        .ok (filled, rest) := by
  cases alike with
  | empty =>
      obtain ⟨value, reads, stands⟩ := vacates.vacant phrase vacant shallow
      refine ⟨(some value, slots), ⟨.vacant gone unique vacates.absent stands, holds⟩,
        fun rest => ?_⟩
      simp only [firstMember, Bind.bind, List.cons_append, List.nil_append, Reader.punctuation,
        if_true, reads]
      rfl
  | read stays _ => exact absurd gone stays
  | vacant _ passed _ _ => exact absurd List.mem_cons_self passed

/-- A slot that is filled on one side only holds what stands for the value of an empty one. -/
theorem SlotsAlike.values (first : field.Overlooks levels clauses related)
    (alike : SlotsAlike field related leftOut pending slot other)
    (behind : Agrees levels relations (Reader.ofExcept (slots.values fields)) []
      (Reader.ofExcept (others.values fields)) []) :
    Agrees levels
      (fun values counterparts => related values.1 counterparts.1 ∧
        relations values.2 counterparts.2)
      (Reader.ofExcept (Slots.values (field :: fields) (slot, slots))) []
      (Reader.ofExcept (Slots.values (field :: fields) (other, others))) [] := by
  have together (value counterpart : field.Value) (relates : related value counterpart) :
      Agrees levels (fun values counterparts => related values.1 counterparts.1 ∧
          relations values.2 counterparts.2)
        (Reader.ofExcept ((slots.values fields).map (value, ·))) []
        (Reader.ofExcept ((others.values fields).map (counterpart, ·))) [] := by
    rw [ofExcept_map, ofExcept_map]
    exact behind.map (fun _ _ further => ⟨relates, further⟩)
  simp only [Slots.values]
  cases alike with
  | empty =>
      simp only [Option.none_or]
      cases absent : field.absent with
      | none => exact .failing _
      | some default => exact together default default (first.absent default absent)
  | read _ relates => exact together _ _ relates
  | vacant _ _ absent stands =>
      simp only [Option.none_or, absent]
      exact together _ _ stands

/-- One more field before others, whose slots keep to an invariant. -/
theorem SlotInvariant.cons (first : field.Overlooks levels clauses related)
    (within : ∀ name ∈ leftOut, name ∈ clauses)
    (behind : SlotInvariant levels leftOut fields relations invariant) :
    SlotInvariant levels leftOut (field :: fields)
      (fun values counterparts => related values.1 counterparts.1 ∧
        relations values.2 counterparts.2)
      (SlotsAlike.Joined related leftOut invariant) where
  start pending := ⟨.empty, behind.start pending⟩
  fewer := fun ⟨alike, holds⟩ => ⟨alike.fewer, behind.fewer holds⟩
  kept := by
    rintro name pending ⟨slot, slots⟩ ⟨other, others⟩ stays ⟨alike, holds⟩
    by_cases same : field.name = name
    · subst same
      rw [member_first, member_first]
      exact .inr ⟨_, _, rfl, rfl, fun _ => alike.firstMember_agrees first stays holds⟩
    · rw [member_behind same, member_behind same]
      obtain ⟨unknown, unknown_too⟩ | ⟨reader, counterpart, found, found_too, agrees⟩ :=
        behind.kept stays holds
      · rw [unknown, unknown_too]
        exact .inl ⟨rfl, rfl⟩
      · rw [found, found_too]
        refine .inr ⟨_, _, rfl, rfl, fun phrase shallow => ?_⟩
        exact (agrees phrase shallow).map (fun _ _ further => ⟨alike, further⟩)
  vacated := by
    rintro name pending ⟨slot, slots⟩ ⟨other, others⟩ gone member unique ⟨alike, holds⟩
    by_cases same : field.name = name
    · subst same
      rw [member_first]
      obtain ⟨default, vacates⟩ := first.vacates (within _ gone)
      exact ⟨_, rfl, fun _ => alike.firstMember_vacant vacates gone unique (behind.fewer holds)⟩
    · rw [member_behind same]
      have inside : name ∈ fields.map Field.name :=
        (List.mem_cons.mp member).resolve_left (fun equal => same equal.symm)
      obtain ⟨reader, found, reads⟩ := behind.vacated gone inside unique holds
      rw [found]
      refine ⟨_, rfl, fun phrase vacant shallow => ?_⟩
      obtain ⟨filled, further, taken⟩ := reads phrase vacant shallow
      refine ⟨(slot, filled), ⟨alike.fewer, further⟩, fun rest => ?_⟩
      simp only [Functor.map, taken]
      rfl
  values := fun ⟨alike, holds⟩ => alike.values first (behind.values holds)

end First

namespace Overlooking

theorem exists_slotInvariant {fields : List Field}
    {relations : Values fields → Values fields → Prop}
    (overlooking : Overlooking levels clauses fields relations) {leftOut : List String}
    (within : ∀ name ∈ leftOut, name ∈ clauses) :
    ∃ invariant, SlotInvariant levels leftOut fields relations invariant := by
  induction overlooking with
  | nil =>
      exact ⟨fun _ _ _ => True, fun _ => trivial, fun _ => trivial, fun _ _ => .inl ⟨rfl, rfl⟩,
        fun _ member => (nomatch member), fun _ => .done trivial⟩
  | cons first others ih =>
      obtain ⟨invariant, behind⟩ := ih
      exact ⟨_, .cons first within behind⟩

end Overlooking

/-- What is read behind the name of a member, which is skipped if it is no field. -/
def memberAfter (fields : List Field) (slots : Slots fields) (name : String) :
    Reader (Slots fields) :=
  match slots.member fields name with
  | some reader => reader
  | none => do
      Reader.punctuation .colon
      Reader.skip
      return slots

/-- A member with a name is read behind it, and then the members behind that one. -/
theorem moreMembers_named (fields : List Field) (slots : Slots fields) (steps levels : Nat)
    (name : String) (rest : List Lexeme) :
    Record.moreMembers fields (steps + 1) slots levels (.comma :: .text (some name) :: rest) =
      (memberAfter fields slots name >>= Record.moreMembers fields steps) levels rest := by
  have named : Record.member fields slots levels (.text (some name) :: rest) =
      memberAfter fields slots name levels rest := rfl
  simp only [Record.moreMembers, named, Bind.bind]
  cases memberAfter fields slots name levels rest <;> rfl

/-- A member that is read fills its slot, and the members behind it come next. -/
theorem moreMembers_taken {fields : List Field} {slots filled : Slots fields} {name : String}
    {reader : Reader (Slots fields)} {value : Phrase} {rest : List Lexeme}
    (found : slots.member fields name = some reader)
    (taken : reader levels ([.colon] ++ value.lexemes ++ rest) = .ok (filled, rest)) (steps : Nat) :
    Record.moreMembers fields (steps + 1) slots levels
        (.comma :: Phrase.spelledMember (some name, value) ++ rest) =
      Record.moreMembers fields steps filled levels rest := by
  have after : memberAfter fields slots name = reader := by rw [memberAfter, found]
  rw [List.singleton_append, List.cons_append] at taken
  rw [List.cons_append, Phrase.spelledMember, List.cons_append, moreMembers_named, after,
    List.cons_append]
  simp only [Bind.bind, taken]

namespace SlotInvariant

variable {fields : List Field} {relations : Values fields → Values fields → Prop}
  {leftOut : List String} {invariant : List String → Slots fields → Slots fields → Prop}

theorem memberAfter_agrees (slotInvariant : SlotInvariant levels leftOut fields relations invariant)
    {name : String} {pending : List String} {slots others : Slots fields} (stays : name ∉ leftOut)
    (holds : invariant pending slots others) {phrase : Phrase} (shallow : phrase.depth ≤ levels) :
    Agrees levels (invariant pending) (memberAfter fields slots name) ([.colon] ++ phrase.lexemes)
      (memberAfter fields others name)
      ([.colon] ++ (phrase.trimmed (.ofName (some name))).lexemes) := by
  unfold memberAfter
  obtain ⟨unknown, unknown_too⟩ | ⟨reader, counterpart, found, found_too, agrees⟩ :=
    slotInvariant.kept stays holds
  · rw [unknown, unknown_too]
    have skips : Agrees levels (fun _ _ => True) Reader.skip phrase.lexemes Reader.skip
        (phrase.trimmed (.ofName (some name))).lexemes :=
      fun _ _ => .taken trivial (Phrase.skip_eq ..) (Phrase.skip_eq ..)
    exact ((Agrees.mark .colon .colon).andThen (fun _ _ _ =>
      skips.andThen (fun _ _ _ => .done holds))).cast (by simp) (by simp)
  · rw [found, found_too]
    exact agrees phrase shallow

/-- The members of an object behind one, up to its closing brace. -/
theorem moreMembers (slotInvariant : SlotInvariant levels leftOut fields relations invariant)
    (known : ∀ name ∈ leftOut, name ∈ fields.map Field.name)
    {members : List (Option String × Phrase)}
    (dispensable : Phrase.Dispensable leftOut members)
    (shallow : ∀ member ∈ members, member.2.depth ≤ levels) {steps further : Nat}
    (enough : members.length < steps)
    (suffice : (Phrase.trimmedMembers leftOut members).length < further)
    {slots others : Slots fields} (holds : invariant (members.filterMap Prod.fst) slots others) :
    Agrees levels (invariant []) (Record.moreMembers fields steps slots)
      (members.flatMap (fun member => .comma :: Phrase.spelledMember member) ++ [.closeBrace])
      (Record.moreMembers fields further others)
      ((Phrase.trimmedMembers leftOut members).flatMap
        (fun member => .comma :: Phrase.spelledMember member) ++ [.closeBrace]) := by
  induction members generalizing steps further slots others with
  | nil =>
      obtain ⟨steps, rfl⟩ := Nat.exists_eq_succ_of_ne_zero (Nat.ne_of_gt enough)
      obtain ⟨further, rfl⟩ := Nat.exists_eq_succ_of_ne_zero (Nat.ne_of_gt suffice)
      exact fun _ _ => .taken holds rfl rfl
  | cons member rest ih =>
      obtain ⟨steps, rfl⟩ := Nat.exists_eq_succ_of_ne_zero (Nat.ne_of_gt (Nat.zero_lt_of_lt enough))
      obtain ⟨further, rfl⟩ :=
        Nat.exists_eq_succ_of_ne_zero (Nat.ne_of_gt (Nat.zero_lt_of_lt suffice))
      obtain ⟨name, value⟩ := member
      obtain ⟨here, later⟩ := List.forall_mem_cons.mp shallow
      have enough_later := Nat.lt_of_succ_lt_succ enough
      cases name with
      | none => exact fun _ _ => .refused rfl rfl
      | some name =>
          by_cases gone : name ∈ leftOut
          · rw [Phrase.trimmedMembers_gone gone] at suffice ⊢
            have vacant := dispensable.vacant name gone value List.mem_cons_self
            have unique : name ∉ rest.filterMap Prod.fst := by
              intro again
              obtain ⟨⟨_, other⟩, listed, rfl⟩ := List.mem_filterMap.mp again
              exact dispensable.not_mem_tail gone listed
            obtain ⟨reader, found, reads⟩ :=
              slotInvariant.vacated gone (known name gone) unique holds
            obtain ⟨filled, goes_on, taken⟩ := reads value vacant here
            refine ((ih dispensable.tail later enough_later suffice goes_on).ahead
              (.comma :: Phrase.spelledMember (some name, value)) (fun behind => ?_)).cast
                (by simp) rfl
            exact moreMembers_taken found (taken behind) steps
          · rw [Phrase.trimmedMembers_stays gone] at suffice ⊢
            have suffice_later := Nat.lt_of_succ_lt_succ suffice
            have both := (slotInvariant.memberAfter_agrees gone (slotInvariant.fewer holds) here).andThen
              (fun _ _ goes_on => ih dispensable.tail later enough_later suffice_later goes_on)
            refine (both.agreeing [.comma, .text (some name)] (fun behind => ?_)
              (fun behind => ?_)).cast (by simp [Phrase.spelledMember])
                (by simp [Phrase.spelledMember])
            · exact moreMembers_named fields slots steps levels name _
            · exact moreMembers_named fields others further levels name _

end SlotInvariant

/-- The members of an object are read from its opening brace on as they are behind a comma. -/
theorem exists_slotsReader_eq (fields : List Field) (members : List (Option String × Phrase))
    (levels : Nat) (rest : List Lexeme) :
    ∃ steps, members.length < steps ∧
      Entries.slotsReader fields levels
          ([.comma].intercalate (members.map Phrase.spelledMember) ++ [.closeBrace] ++ rest) =
        Record.moreMembers fields steps (Slots.empty fields) levels
          (members.flatMap (fun member => .comma :: Phrase.spelledMember member) ++
            [.closeBrace] ++ rest) := by
  cases members with
  | nil => exact ⟨1, Nat.one_pos, rfl⟩
  | cons member others =>
      have fuel := Reader.Takes.length_le_flatMap_comma Phrase.spelledMember others
      refine ⟨(Phrase.spelledMember member ++
        others.flatMap (fun member => Lexeme.comma :: Phrase.spelledMember member) ++
          [Lexeme.closeBrace] ++ rest).length + 1, ?_, ?_⟩
      · simp only [List.length_append, List.length_cons]
        omega
      · rw [List.map_cons, intercalate_cons, List.flatMap_map, List.flatMap_cons]
        simp only [Phrase.spelledMember, List.cons_append, Entries.slotsReader, Bind.bind,
          Record.moreMembers]
        cases Record.member fields (Slots.empty fields) levels _ <;> rfl

namespace Overlooking

variable {fields : List Field} {relations : Values fields → Values fields → Prop}

theorem fromMembers (overlooking : Overlooking levels clauses fields relations)
    {leftOut : List String} (within : ∀ name ∈ leftOut, name ∈ clauses)
    (known : ∀ name ∈ leftOut, name ∈ fields.map Field.name)
    {members : List (Option String × Phrase)} (dispensable : Phrase.Dispensable leftOut members)
    (shallow : ∀ member ∈ members, member.2.depth ≤ levels) :
    Agrees levels relations (Record.fromMembers fields)
      ([.comma].intercalate (members.map Phrase.spelledMember) ++ [.closeBrace])
      (Record.fromMembers fields)
      ([.comma].intercalate
        ((Phrase.trimmedMembers leftOut members).map Phrase.spelledMember) ++ [.closeBrace]) := by
  obtain ⟨invariant, slotInvariant⟩ := overlooking.exists_slotInvariant within
  have slots : Agrees levels (invariant []) (Entries.slotsReader fields)
      ([.comma].intercalate (members.map Phrase.spelledMember) ++ [.closeBrace])
      (Entries.slotsReader fields)
      ([.comma].intercalate
        ((Phrase.trimmedMembers leftOut members).map Phrase.spelledMember) ++ [.closeBrace]) := by
    intro rest other
    obtain ⟨steps, enough, equal⟩ := exists_slotsReader_eq fields members levels rest
    obtain ⟨further, suffice, likewise⟩ :=
      exists_slotsReader_eq fields (Phrase.trimmedMembers leftOut members) levels other
    rw [equal, likewise]
    exact slotInvariant.moreMembers known dispensable shallow enough suffice
      (slotInvariant.start _) rest other
  rw [Entries.fromMembers_eq]
  exact (slots.andThen (fun _ _ holds => slotInvariant.values holds)).cast (List.append_nil _)
    (List.append_nil _)

end Overlooking

/-- The fields of a record are those of the layout, with none or all of its clauses. -/
theorem Record.overlooks {σ : Type} (record : Record σ) {levels : Nat} {layout : Layout}
    {relations : Values record.fields → Values record.fields → Prop} {related : σ → σ → Prop}
    (named : layout.others ++ layout.clauses <+: record.fields.map Field.name)
    (overlooking : ∀ inner, levels = inner + 1 →
      Overlooking inner layout.clauses record.fields relations)
    (assembled : ∀ values counterparts, relations values counterparts →
      related (record.assemble values) (record.assemble counterparts)) :
    record.read.Overlooks levels layout related := by
  intro phrase shallow
  cases phrase with
  | array elements =>
      obtain ⟨levels, rfl⟩ := Nat.exists_eq_succ_of_ne_zero (Nat.ne_of_gt (Nat.zero_lt_of_lt shallow))
      have inside := (((overlooking levels rfl).fromElements record.lengthDescription 0 named
        (Phrase.elementDepths_le.mp (Nat.le_of_succ_le_succ shallow))).map assembled).nested
      rw [Phrase.trimmed, Phrase.lexemes, Phrase.lexemes, Phrase.elementLexemes_eq_map,
        Phrase.elementLexemes_eq_map]
      exact inside.agreeing [.openBracket] (fun _ => rfl) (fun _ => rfl)
  | object members =>
      obtain ⟨levels, rfl⟩ := Nat.exists_eq_succ_of_ne_zero (Nat.ne_of_gt (Nat.zero_lt_of_lt shallow))
      have within : ∀ name ∈ layout.leftOut members, name ∈ layout.clauses :=
        fun _ gone => (List.mem_filter.mp gone).1
      have known : ∀ name ∈ layout.leftOut members, name ∈ record.fields.map Field.name :=
        fun name gone => named.subset (List.mem_append_right _ (within name gone))
      have inside := (((overlooking levels rfl).fromMembers within known
        (Phrase.dispensable_leftOut layout members)
        (Phrase.memberDepths_le.mp (Nat.le_of_succ_le_succ shallow))).map assembled).nested
      rw [Phrase.trimmed, Phrase.lexemes, Phrase.lexemes, Phrase.memberLexemes_eq_map,
        Phrase.memberLexemes_eq_map]
      exact inside.agreeing [.openBrace] (fun _ => rfl) (fun _ => rfl)
  | _ => exact fun _ _ => .refused rfl rfl

end SyntaxTree.Json
