import SyntaxTree.Json.Lexeme
import SyntaxTree.Malformation

/-!
# Errors of reading

Reading fails because the text is no JSON, because it ends too early, or because it says something
that is not described by the type that is read. The last kind has a message.
-/

namespace SyntaxTree.Json

/-- What was found where something else was expected. -/
inductive Found where
  | null
  | bool (value : Bool)
  | integer (value : Int)
  | real (value : Binary64)
  | text (value : String)
  | sequence
  | map
  /-- A bare name where a name with a payload belongs. -/
  | bareName
deriving DecidableEq

def Found.description : Found → String
  | .null => "null"
  | .bool true => "boolean `true`"
  | .bool false => "boolean `false`"
  | .integer value =>
      let shown := String.ofList (Text.integer value)
      "integer `" ++ shown ++ "`"
  | .real value =>
      let shown := String.ofList (value.text realFormat)
      "floating point `" ++ shown ++ "`"
  | .text value => "string " ++ String.ofList (Text.quoted value)
  | .sequence => "sequence"
  | .map => "map"
  | .bareName => "unit variant"

/-- How a text that is JSON fails to describe a value of the type that is read. -/
inductive DataError where
  | invalidType (found : Found) (expected : String)
  /-- An integer outside the range of its field. -/
  | invalidValue (found : Int) (expected : String)
  | invalidLength (length : Nat) (expected : String)
  | unknownVariant (name : String) (known : List String)
  | duplicateField (name : String)
  | missingField (name : String)
  /-- A value that is the spelling of no literal. -/
  | noLiteral
  /-- A text in place of the name of a number that is not finite. -/
  | unknownReal (name : String)
  | malformed (cause : Malformation)
deriving DecidableEq

def DataError.message : DataError → String
  | .invalidType found expected =>
      let found := found.description
      s!"invalid type: {found}, expected {expected}"
  | .invalidValue found expected =>
      let found := (Found.integer found).description
      s!"invalid value: {found}, expected {expected}"
  | .invalidLength length expected => s!"invalid length {length}, expected {expected}"
  | .unknownVariant name known =>
      let known := ", ".intercalate (known.map (fun name => "`" ++ name ++ "`"))
      "unknown variant `" ++ name ++ "`, expected one of " ++ known
  | .duplicateField name => "duplicate field `" ++ name ++ "`"
  | .missingField name => "missing field `" ++ name ++ "`"
  | .noLiteral => "data did not match any variant of untagged enum LiteralRepr"
  | .unknownReal name =>
      "expected \"inf\", \"-inf\" or \"nan\", got " ++ String.ofList (Text.quoted name)
  | .malformed cause => cause.message

inductive ReadError where
  | fault (fault : Fault)
  | data (error : DataError)
deriving DecidableEq

end SyntaxTree.Json
