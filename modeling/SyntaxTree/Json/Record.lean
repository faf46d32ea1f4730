import SyntaxTree.Json.Reader

/-!
# Records in JSON

A record is described once by its fields, and the description both reads and writes it. It is
written as an object with the fields in order. It is read from an object with its members in any
order, where members that are no fields are skipped, or from an array of the fields in order.
Fields that have a value when left out may be missing from an object and from the end of an array.
-/

namespace SyntaxTree.Json

/-- How a type is read from JSON and written to it. -/
structure Codec (α : Type) where
  read : Reader α
  write : α → Json

namespace Codec

variable {α β : Type}

/-- JSON values as they are. -/
def json : Codec Json := ⟨Reader.any, id⟩

def text : Codec String := ⟨Reader.text, .text⟩

def bool : Codec Bool := ⟨Reader.bool, .bool⟩

def int64 : Codec Int64 := ⟨Reader.int64, fun value => .integer value.toInt⟩

def index : Codec UInt64 := ⟨Reader.index, fun value => .integer value.toNat⟩

def list (element : Codec α) : Codec (List α) :=
  ⟨Reader.list element.read, fun elements => .array (elements.map element.write)⟩

def pair (first : Codec α) (second : Codec β) : Codec (α × β) :=
  ⟨Reader.pair first.read second.read,
    fun both => .array [first.write both.1, second.write both.2]⟩

end Codec

/-- One field of a record. -/
structure Field where
  name : String
  Value : Type
  read : Reader Value
  /-- The value of the field when it is left out, none if it must be there. -/
  absent : Option Value
  /-- The member that holds a value, none if the value is written by leaving it out. -/
  write : Value → Option Json

namespace Field

variable {α : Type}

def required (name : String) (codec : Codec α) : Field where
  name := name
  Value := α
  read := codec.read
  absent := none
  write value := some (codec.write value)

/-- A field that is always written but may be left out. -/
def defaulting (name : String) (codec : Codec α) (value : α) : Field where
  name := name
  Value := α
  read := codec.read
  absent := some value
  write value := some (codec.write value)

/-- A field that is left out, or null, when it has no value. -/
def optional (name : String) (codec : Codec α) : Field where
  name := name
  Value := Option α
  read := codec.read.option
  absent := some none
  write value := value.map codec.write

/-- A list that is always written, but that need not be there when it is empty. -/
def list (name : String) (element : Codec α) : Field := defaulting name (Codec.list element) []

/-- A list that is left out when it is empty. -/
def nonemptyList (name : String) (element : Codec α) : Field where
  name := name
  Value := List α
  read := (Codec.list element).read
  absent := some []
  write elements := if elements.isEmpty then none else some ((Codec.list element).write elements)

end Field

/-- The values of the given fields. -/
def Values : List Field → Type
  | [] => Unit
  | field :: rest => field.Value × Values rest

/-- The values of those of the given fields that were read already. -/
def Slots : List Field → Type
  | [] => Unit
  | field :: rest => Option field.Value × Slots rest

namespace Slots

def empty : (fields : List Field) → Slots fields
  | [] => ()
  | _ :: rest => (none, empty rest)

/--
Reads the rest of the member of the given name into its slot; none when no field has the name.
A second member of one name is refused before its colon.
-/
def member : (fields : List Field) → String → Slots fields → Option (Reader (Slots fields))
  | [], _, _ => none
  | field :: rest, name, (slot, slots) =>
      if field.name = name then
        match slot with
        | some _ => some (Reader.failData (.duplicateField name))
        | none => some do
            Reader.punctuation .colon
            let value ← field.read
            return (some value, slots)
      else
        (member rest name slots).map (fun reader => do
          let slots ← reader
          return (slot, slots))

/-- All values, those of fields that were left out included, or the first one that is missing. -/
def values : (fields : List Field) → Slots fields → Except DataError (Values fields)
  | [], () => .ok ()
  | field :: rest, (slot, slots) =>
      match slot.or field.absent with
      | none => .error (.missingField field.name)
      | some value => (values rest slots).map (value, ·)

end Slots

/-- A record type described by its fields. -/
structure Record (σ : Type) where
  /-- The name of the type in messages. -/
  name : String
  fields : List Field
  assemble : Values fields → σ
  parts : σ → Values fields

namespace Record

variable {σ : Type}

/-- A member of an object from its name on. -/
def member (fields : List Field) (slots : Slots fields) : Reader (Slots fields) := do
  let name ← Reader.name
  match slots.member fields name with
  | some reader => reader
  | none =>
      Reader.punctuation .colon
      Reader.skip
      return slots

/-- The members after one of an object, up to its closing brace. -/
def moreMembers (fields : List Field) : Nat → Slots fields → Reader (Slots fields)
  | 0, _ => Reader.fail (.fault .ended)
  | steps + 1, slots => fun levels lexemes =>
      match lexemes with
      | [] => .error (.fault .ended)
      | .closeBrace :: rest => .ok (slots, rest)
      | .comma :: rest =>
          match member fields slots levels rest with
          | .error error => .error error
          | .ok (slots, rest) => moreMembers fields steps slots levels rest
      | _ :: _ => .error (.fault .invalid)

/-- The fields of a record from its object's members after the opening brace. -/
def fromMembers (fields : List Field) : Reader (Values fields) := fun levels lexemes =>
  let slots : Except ReadError (Slots fields × List Lexeme) :=
    match lexemes with
    | .closeBrace :: rest => .ok (Slots.empty fields, rest)
    | lexemes =>
        (member fields (Slots.empty fields) >>= moreMembers fields lexemes.length) levels lexemes
  match slots with
  | .error error => .error error
  | .ok (slots, rest) =>
      match slots.values fields with
      | .error error => .error (.data error)
      | .ok values => .ok (values, rest)

/-- The values of fields that an array ends before, or the error at the first one it needs. -/
def remaining (expected : String) : (fields : List Field) → Nat → Except DataError (Values fields)
  | [], _ => .ok ()
  | field :: rest, position =>
      match field.absent with
      | none => .error (.invalidLength position expected)
      | some value => (remaining expected rest (position + 1)).map (value, ·)

/--
The fields of a record from the elements of its array, counted from a position, up to the closing
bracket. Every element but the first follows a comma.
-/
def fromElements (expected : String) :
    (fields : List Field) → (position : Nat) → Reader (Values fields)
  | [], _ => do
      Reader.punctuation .closeBracket
      return ()
  | field :: rest, position => fun levels lexemes =>
      match lexemes with
      | [] => .error (.fault .ended)
      | .closeBracket :: after =>
          match remaining expected (field :: rest) position with
          | .error error => .error (.data error)
          | .ok values => .ok (values, after)
      | lexemes => (do
          if position ≠ 0 then
            Reader.punctuation .comma
          let value ← field.read
          let values ← fromElements expected rest (position + 1)
          return (value, values)) levels lexemes

/-- What an array of the wrong length is reported not to be. -/
def lengthDescription (record : Record σ) : String :=
  let name := record.name
  let count := record.fields.length
  let plural := if count = 1 then "" else "s"
  s!"struct {name} with {count} element{plural}"

def read (record : Record σ) : Reader σ := fun levels lexemes =>
  match lexemes with
  | .openBrace :: rest =>
      Reader.nested (record.assemble <$> fromMembers record.fields) levels rest
  | .openBracket :: rest =>
      Reader.nested (record.assemble <$> fromElements record.lengthDescription record.fields 0)
        levels rest
  | lexeme :: _ => .error (Reader.mismatch ("struct " ++ record.name) lexeme)
  | [] => .error (.fault .ended)

/-- The members that hold the values of the given fields. -/
def members : (fields : List Field) → Values fields → List (String × Json)
  | [], () => []
  | field :: rest, (value, values) =>
      (field.write value).toList.map (field.name, ·) ++ members rest values

def write (record : Record σ) (value : σ) : Json :=
  .object (members record.fields (record.parts value))

def codec (record : Record σ) : Codec σ := ⟨record.read, record.write⟩

end Record

end SyntaxTree.Json
