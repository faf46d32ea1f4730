import SyntaxTree.Json.Record
import SyntaxTree.Literal

/-!
# Literals in JSON

A literal is the JSON value of its own kind, the sentinel null. Numbers that are not finite have
no JSON spelling of their own and travel as an object that names them; an array of the name alone
is read as well.
-/

namespace SyntaxTree

open Json (DataError Reader Codec)

namespace Literal

def toJson : Literal → Json
  | .sentinel => .null
  | .bool value => .bool value
  | .int value => .integer value.toInt
  | .real value =>
      if value.isFinite then .real value else .object [("real", .text value.nonFiniteName)]
  | .text value => .text value

/-- The number of the given name. -/
def ofRealName (name : String) : Except DataError Literal :=
  match Binary64.ofNonFiniteName? name with
  | some value => .ok (.real value)
  | none => .error (.unknownReal name)

/--
The literal that a value spells. Integers past 64 bits with a sign become the nearest reals, which
are finite since the integer has at most 64 bits.
-/
def ofJson : Json → Except DataError Literal
  | .null => .ok .sentinel
  | .bool value => .ok (.bool value)
  | .integer value =>
      if -2 ^ 63 ≤ value && value < 2 ^ 63 then
        .ok (.int (Int64.ofInt value))
      else
        match Binary64.ofDecimal? (value < 0) ⟨value.natAbs, 0⟩ with
        | some value => .ok (.real value)
        | none => .error .noLiteral
  | .real value => .ok (.real value)
  | .text value => .ok (.text value)
  | .object [("real", .text name)] => ofRealName name
  | .array [.text name] => ofRealName name
  | _ => .error .noLiteral

/-- The whole value is read before it is looked at. -/
def read : Reader Literal := do
  let value ← Reader.any
  Reader.ofExcept (ofJson value)

def codec : Codec Literal := ⟨read, toJson⟩

end Literal

end SyntaxTree
