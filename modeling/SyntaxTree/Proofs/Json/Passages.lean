import Mathlib.Data.List.Forall2
import SyntaxTree.Proofs.Json.Skipping
import SyntaxTree.Proofs.Json.TakesRecords

/-!
# Passages

A passage is what is spelled somewhere in a JSON text: its lexemes, and how deep they nest. The
same value may be spelled in many ways. A record is spelled as an object with its members in any
order, among members that are no fields of it, or as an array of its fields; fields that hold what
they hold when they are left out may be left out.
-/

namespace SyntaxTree.Json

open Reader (Firm Takes)

theorem Reader.Takes.deepest_map {α β : Type} (depth : β → Nat) (f : α → β) (items : List α) :
    deepest depth (items.map f) = deepest (fun item => depth (f item)) items := by
  rw [deepest, List.map_map]
  rfl

/-- Lexemes, and how many arrays and objects are open at once within them, not counting those of
values that are skipped. -/
structure Passage where
  lexemes : List Lexeme
  depth : Nat

namespace Passage

/-- The spelling that a value is written with. -/
def ofJson (value : Json) : Passage := ⟨value.spelling, value.depth⟩

def array (elements : List Passage) : Passage where
  lexemes := .openBracket :: ([.comma].intercalate (elements.map lexemes) ++ [.closeBracket])
  depth := Takes.deepest depth elements + 1

def object (members : List (String × Passage)) : Passage where
  lexemes := .openBrace :: ([.comma].intercalate
    (members.map (fun member => memberLexemes member.1 member.2.lexemes)) ++ [.closeBrace])
  depth := Takes.deepest (fun member => member.2.depth) members + 1

theorem ofJson_array {α : Type} (write : α → Json) (elements : List α) :
    ofJson (.array (elements.map write)) =
      array (elements.map (fun element => ofJson (write element))) := by
  rw [ofJson, spelling, spellings_eq_map, Json.depth, Reader.depths_map, array, List.map_map,
    List.map_map, Takes.deepest_map]
  rfl

theorem ofJson_object (members : List (String × Json)) :
    ofJson (.object members) =
      object (members.map (fun member => (member.1, ofJson member.2))) := by
  rw [ofJson, spelling, memberSpellings_eq_map, Json.depth, Reader.memberDepths_eq, object,
    List.map_map, Takes.deepest_map]
  rfl

end Passage

/-- The ways in which something may be spelled. -/
def Spellings : Type := Passage → Prop

namespace Spellings

/-- A value that is spelled as it is written. -/
def json (value : Json) : Spellings := fun passage => passage = .ofJson value

def list (elements : List Spellings) : Spellings := fun passage =>
  ∃ passages, List.Forall₂ (fun spellings passage => spellings passage) elements passages ∧
    passage = .array passages

/-- An object of one member that is always there. -/
def member (name : String) (payload : Spellings) : Spellings := fun passage =>
  ∃ inner, payload inner ∧ passage = .object [(name, inner)]

end Spellings

/-- A field of a record with its value, and whether that is the value it has when left out. -/
structure Slot where
  name : String
  value : Spellings
  omissible : Bool

namespace Slot

def required (name : String) (value : Spellings) : Slot := ⟨name, value, false⟩

def defaulting (name : String) (value : Spellings) (isDefault : Bool) : Slot :=
  ⟨name, value, isDefault⟩

/-- An absent value is left out or null. -/
def optional (name : String) (value : Option Spellings) : Slot :=
  ⟨name, value.getD (.json .null), value.isNone⟩

def list (name : String) (elements : List Spellings) : Slot :=
  ⟨name, .list elements, elements.isEmpty⟩

/-- Members for the fields in their order, of which some that may be are left out. -/
inductive Chosen : List Slot → List (String × Passage) → Prop
  | nil : Chosen [] []
  | omitted {slot : Slot} {slots : List Slot} {members : List (String × Passage)}
      (omissible : slot.omissible = true) (others : Chosen slots members) :
      Chosen (slot :: slots) members
  | written {slot : Slot} {slots : List Slot} {passage : Passage}
      {members : List (String × Passage)} (spelled : slot.value passage)
      (others : Chosen slots members) :
      Chosen (slot :: slots) ((slot.name, passage) :: members)

/-- Elements for the fields in their order, up to some from which on all may be left out. -/
inductive Listed : List Slot → List Passage → Prop
  | cut {slots : List Slot} (omissible : ∀ slot ∈ slots, slot.omissible = true) : Listed slots []
  | written {slot : Slot} {slots : List Slot} {passage : Passage} {elements : List Passage}
      (spelled : slot.value passage) (others : Listed slots elements) :
      Listed (slot :: slots) (passage :: elements)

/-- A member of any value that is no field of the record. -/
structure Foreign (slots : List Slot) (member : String × Passage) : Prop where
  unknown : member.1 ∉ slots.map Slot.name
  value : IsValue member.2.lexemes
  skipped : member.2.depth = 0

end Slot

/-- Whether records are spelled as objects only, or each as an object or as an array. -/
inductive Manner where
  | named
  | either
deriving DecidableEq

namespace Spellings

/-- Chosen members of the record's own and added ones, in any order. -/
def object (slots : List Slot) : Spellings := fun passage =>
  ∃ own added members, Slot.Chosen slots own ∧ (∀ member ∈ added, Slot.Foreign slots member) ∧
    members.Perm (own ++ added) ∧ passage = .object members

def array (slots : List Slot) : Spellings := fun passage =>
  ∃ elements, Slot.Listed slots elements ∧ passage = .array elements

def record (manner : Manner) (slots : List Slot) : Spellings := fun passage =>
  object slots passage ∨ manner = .either ∧ array slots passage

/-- However it is spelled, it does not begin as null does. -/
def IsFirm (spellings : Spellings) : Prop := ∀ passage, spellings passage → Firm passage.lexemes

theorem isFirm_json {value : Json} (solid : value ≠ .null) : (json value).IsFirm := by
  rintro _ rfl
  exact Reader.firm_spelling solid

theorem isFirm_list (elements : List Spellings) : (list elements).IsFirm := by
  rintro _ ⟨passages, -, rfl⟩
  trivial

theorem isFirm_member (name : String) (payload : Spellings) : (member name payload).IsFirm := by
  rintro _ ⟨inner, -, rfl⟩
  trivial

theorem isFirm_record (manner : Manner) (slots : List Slot) : (record manner slots).IsFirm := by
  rintro _ (⟨own, added, members, -, -, -, rfl⟩ | ⟨-, elements, -, rfl⟩) <;> trivial

end Spellings

/-! ### Readers of passages -/

namespace Reader

variable {α β : Type} {bound : Nat}

/-- The JSON is one of the ways to spell the value, and the reader takes each of them for it. -/
structure Meets (bound : Nat) (reader : Reader α) (spellings : Spellings) (json : Json)
    (value : α) : Prop where
  writes : spellings (.ofJson json)
  reads : ∀ passage, spellings passage →
    reader.Takes bound passage.lexemes passage.depth (.ok value)

namespace Meets

variable {reader : Reader α} {spellings : Spellings} {json : Json} {value : α}

theorem ofReads (reads : reader.Reads bound json (.ok value)) :
    reader.Meets bound (.json json) json value where
  writes := rfl
  reads := by
    rintro _ rfl
    exact reads

theorem map (f : α → β) (meets : reader.Meets bound spellings json value) :
    (f <$> reader).Meets bound spellings json (f value) where
  writes := meets.writes
  reads passage spelled := (meets.reads passage spelled).map f

/-- Passages one by one for elements, each with the element that it spells. -/
theorem exists_pairs {spell : α → Spellings} {elements : List α} {passages : List Passage}
    (spelled : List.Forall₂ (fun spellings passage => spellings passage) (elements.map spell)
      passages) :
    ∃ pairs : List (α × Passage), pairs.map Prod.fst = elements ∧ pairs.map Prod.snd = passages ∧
      ∀ pair ∈ pairs, spell pair.1 pair.2 := by
  induction elements generalizing passages with
  | nil =>
      cases spelled
      exact ⟨[], rfl, rfl, nofun⟩
  | cons element rest ih =>
      cases spelled with
      | cons here later =>
          obtain ⟨pairs, rfl, rfl, each⟩ := ih later
          exact ⟨(element, _) :: pairs, rfl, rfl, List.forall_mem_cons.mpr ⟨here, each⟩⟩

theorem list {element : Reader β} {spell : α → Spellings} {write : α → Json} {outcome : α → β}
    {elements : List α} (firm : ∀ value ∈ elements, (spell value).IsFirm)
    (meets : ∀ value ∈ elements, element.Meets bound (spell value) (write value) (outcome value)) :
    (Reader.list element).Meets bound (.list (elements.map spell)) (.array (elements.map write))
      (elements.map outcome) where
  writes := by
    refine ⟨elements.map (fun element => .ofJson (write element)), ?_, Passage.ofJson_array _ _⟩
    rw [List.forall₂_map_left_iff, List.forall₂_map_right_iff, List.forall₂_same]
    exact fun value member => (meets value member).writes
  reads := by
    rintro _ ⟨passages, spelled, rfl⟩
    obtain ⟨pairs, rfl, rfl, each⟩ := exists_pairs spelled
    have takes : ∀ pair ∈ pairs, element.Takes bound pair.2.lexemes pair.2.depth
        (.ok (outcome pair.1)) := fun pair member =>
      (meets pair.1 (List.mem_map_of_mem member)).reads pair.2 (each pair member)
    have whole := Takes.list takes (fun pair member =>
      firm pair.1 (List.mem_map_of_mem member) pair.2 (each pair member))
    refine (whole.mono (Nat.le_succ bound)).cast ?_ ?_ ?_
    · rw [Passage.array, List.map_map]
      rfl
    · exact congrArg (· + 1) (Takes.deepest_map Passage.depth Prod.snd pairs).symm
    · rw [List.map_map]
      exact List.mapM_pure

theorem pair {first : Reader α} {second : Reader β} {one other : Spellings} {left right : Json}
    {value : α} {further : β} (firm : one.IsFirm) (meets : first.Meets bound one left value)
    (follows : second.Meets bound other right further) :
    (Reader.pair first second).Meets bound (.list [one, other]) (.array [left, right])
      (value, further) where
  writes := by
    refine ⟨[.ofJson left, .ofJson right], ?_, Passage.ofJson_array id [left, right]⟩
    exact .cons meets.writes (.cons follows.writes .nil)
  reads := by
    rintro _ ⟨_, spelled, rfl⟩
    cases spelled with
    | cons here later =>
        cases later with
        | cons last ends =>
            cases ends
            have whole := Takes.pair (meets.reads _ here) (firm _ here) (follows.reads _ last)
            refine (whole.mono (Nat.le_succ bound)).cast ?_ ?_ rfl
            · simp [Passage.array]
            · simp [Passage.array, Takes.deepest]

end Meets

end Reader

end SyntaxTree.Json
