import SyntaxTree.Json.ReadError

/-!
# Reading values from lexemes

A reader takes a value off the front of a list of lexemes and fails at the first fault, in the
order of the text. It knows how many more arrays and objects may be opened within one another, and
fails at the one too many.

What is wrong with a scalar is noticed before its type is; an array or an object of the wrong type
is refused at its opening bracket.
-/

namespace SyntaxTree.Json

/-- Takes a value off some lexemes, within a number of levels of nesting. -/
def Reader (α : Type) : Type :=
  (levels : Nat) → List Lexeme → Except ReadError (α × List Lexeme)

namespace Reader

variable {α β : Type}

instance : Monad Reader where
  pure value := fun _ rest => .ok (value, rest)
  bind reader next := fun levels lexemes =>
    match reader levels lexemes with
    | .ok (value, rest) => next value levels rest
    | .error error => .error error

def fail (error : ReadError) : Reader α := fun _ _ => .error error

def failData (error : DataError) : Reader α := fail (.data error)

/-- The answer of a check that looks at no lexeme. -/
def ofExcept : Except DataError α → Reader α
  | .ok value => pure value
  | .error error => failData error

/-- A reader at one more level of nesting, for what stands within brackets. -/
def nested (reader : Reader α) : Reader α
  | 0, _ => .error (.fault .invalid)
  | levels + 1, lexemes => reader levels lexemes

/-- Takes the given punctuation mark. -/
def punctuation (mark : Lexeme) : Reader Unit
  | _, [] => .error (.fault .ended)
  | _, lexeme :: rest => if lexeme = mark then .ok ((), rest) else .error (.fault .invalid)

/--
Why a lexeme does not start a value of the expected type. Only what is sound as a scalar has a
type, and a real past the finite ones is not sound.
-/
def mismatch (expected : String) : Lexeme → ReadError
  | .openBrace => .data (.invalidType .map expected)
  | .openBracket => .data (.invalidType .sequence expected)
  | .null => .data (.invalidType .null expected)
  | .bool value => .data (.invalidType (.bool value) expected)
  | .numeral numeral =>
      match numeral.value? with
      | some (.integer value) => .data (.invalidType (.integer value) expected)
      | some (.real value) => .data (.invalidType (.real value) expected)
      | _ => .fault .invalid
  | .text (some value) => .data (.invalidType (.text value) expected)
  | .broken _ onRead _ => .fault onRead
  | _ => .fault .invalid

/-- Takes one lexeme that is a scalar of the expected type. -/
def scalar (expected : String) (accepts : Lexeme → Option (Except DataError α)) : Reader α
  | _, [] => .error (.fault .ended)
  | _, lexeme :: rest =>
      match accepts lexeme with
      | some (.ok value) => .ok (value, rest)
      | some (.error error) => .error (.data error)
      | none => .error (mismatch expected lexeme)

/-- A text that stands for what is expected. -/
def textFor (expected : String) : Reader String :=
  scalar expected (fun
    | .text (some value) => some (.ok value)
    | _ => none)

def text : Reader String := textFor "a string"

def bool : Reader Bool :=
  scalar "a boolean" (fun
    | .bool value => some (.ok value)
    | _ => none)

def unit : Reader Unit :=
  scalar "unit" (fun
    | .null => some (.ok ())
    | _ => none)

/-- An integer within bounds. -/
def integer (expected : String) (least greatest : Int) : Reader Int :=
  scalar expected (fun
    | .numeral numeral =>
        match numeral.value? with
        | some (.integer value) =>
            if least ≤ value && value ≤ greatest then
              some (.ok value)
            else
              some (.error (.invalidValue value expected))
        | _ => none
    | _ => none)

def int64 : Reader Int64 := do
  let value ← integer "i64" (-2 ^ 63) (2 ^ 63 - 1)
  return Int64.ofInt value

def index : Reader UInt64 := do
  let value ← integer "usize" 0 (2 ^ 64 - 1)
  return UInt64.ofNat value.toNat

/-- An optional value, null when it is absent. -/
def option (reader : Reader α) : Reader (Option α)
  | _, .null :: rest => .ok (none, rest)
  | _, .broken .null onRead _ :: _ => .error (.fault onRead)
  | levels, lexemes =>
      match reader levels lexemes with
      | .ok (value, rest) => .ok (some value, rest)
      | .error error => .error error

/--
The elements after one of an array, up to its closing bracket. Each takes a comma at least, so
the number of lexemes bounds the number of steps.
-/
def moreElements (element : Reader α) : Nat → Reader (List α)
  | 0 => fail (.fault .ended)
  | steps + 1 => fun levels lexemes =>
      match lexemes with
      | [] => .error (.fault .ended)
      | .closeBracket :: rest => .ok ([], rest)
      | .comma :: rest =>
          match element levels rest with
          | .error error => .error error
          | .ok (first, rest) =>
              match moreElements element steps levels rest with
              | .error error => .error error
              | .ok (others, rest) => .ok (first :: others, rest)
      | _ :: _ => .error (.fault .invalid)

/-- The elements of an array after its opening bracket. -/
def elements (element : Reader α) : Reader (List α) := fun levels lexemes =>
  match lexemes with
  | [] => .error (.fault .ended)
  | .closeBracket :: rest => .ok ([], rest)
  | lexemes =>
      match element levels lexemes with
      | .error error => .error error
      | .ok (first, rest) =>
          match moreElements element (rest.length + 1) levels rest with
          | .error error => .error error
          | .ok (others, rest) => .ok (first :: others, rest)

/-- Reads what follows the opening bracket of an array, or refuses another value. -/
def array (expected : String) (inside : Reader α) : Reader α
  | levels, .openBracket :: rest => nested inside levels rest
  | _, lexeme :: _ => .error (mismatch expected lexeme)
  | _, [] => .error (.fault .ended)

def list (element : Reader α) : Reader (List α) := array "a sequence" (elements element)

/-- The elements of an array that has a pair of them. -/
def pair (first : Reader α) (second : Reader β) : Reader (α × β) :=
  array expected fun levels lexemes =>
    match lexemes with
    | [] => .error (.fault .ended)
    | .closeBracket :: _ => .error (.data (.invalidLength 0 expected))
    | lexemes =>
        match first levels lexemes with
        | .error error => .error error
        | .ok (one, rest) =>
            match rest with
            | [] => .error (.fault .ended)
            | .closeBracket :: _ => .error (.data (.invalidLength 1 expected))
            | .comma :: rest => (do
                let other ← second
                punctuation .closeBracket
                return (one, other)) levels rest
            | _ :: _ => .error (.fault .invalid)
where
  expected : String := "a tuple of size 2"

/-- The name of a member. -/
def name : Reader String
  | _, .text (some value) :: rest => .ok (value, rest)
  | _, .broken .text onRead _ :: _ => .error (.fault onRead)
  | _, _ :: _ => .error (.fault .invalid)
  | _, [] => .error (.fault .ended)

/--
A named variant: its bare name, or an object whose only member has it as its name and a payload as
its value. The name is looked up before its colon is looked for. A value of another type in its
place is refused for its type, unlike one in the place of the name of any other member.
-/
def variant (known : List String) (lookup : String → Option β)
    (bare : β → Except DataError α) (payload : β → Reader α) : Reader α
  | levels, .openBrace :: rest => nested (do
      let key ← textFor "variant identifier"
      match lookup key with
      | none => failData (.unknownVariant key known)
      | some variant =>
          punctuation .colon
          let value ← payload variant
          punctuation .closeBrace
          return value) levels rest
  | levels, .text (some key) :: rest =>
      match lookup key with
      | none => .error (.data (.unknownVariant key known))
      | some variant => ofExcept (bare variant) levels rest
  | _, .broken .text onRead _ :: _ => .error (.fault onRead)
  | _, _ :: _ => .error (.fault .invalid)
  | _, [] => .error (.fault .ended)

/-! ### Skipping -/

/-- What may come next within a value that is skipped. -/
inductive Expectation where
  | value
  | firstElement
  | firstName
  | name
  | colon
  | separator
deriving DecidableEq

/-- The start of a value that is skipped, within brackets that are listed innermost first. -/
def skipValue (enclosing : List Bool) : Lexeme → Except Fault (Expectation × List Bool)
  | .null | .bool _ | .numeral _ | .text _ => .ok (.separator, enclosing)
  | .openBracket => .ok (.firstElement, false :: enclosing)
  | .openBrace => .ok (.firstName, true :: enclosing)
  | .broken _ _ onSkip => .error onSkip
  | _ => .error .invalid

def skipName (enclosing : List Bool) : Lexeme → Except Fault (Expectation × List Bool)
  | .text _ => .ok (.colon, enclosing)
  | .broken .text _ onSkip => .error onSkip
  | _ => .error .invalid

/--
What one lexeme does to a value that is skipped. The brackets around the place are listed
innermost first, true for the braces of an object.
-/
def skipStep (expectation : Expectation) (enclosing : List Bool) (lexeme : Lexeme) :
    Except Fault (Expectation × List Bool) :=
  match expectation, enclosing with
  | .value, enclosing => skipValue enclosing lexeme
  | .firstElement, enclosing =>
      if lexeme = .closeBracket then
        .ok (.separator, enclosing.tail)
      else
        skipValue enclosing lexeme
  | .firstName, enclosing =>
      if lexeme = .closeBrace then
        .ok (.separator, enclosing.tail)
      else
        skipName enclosing lexeme
  | .name, enclosing => skipName enclosing lexeme
  | .colon, enclosing => if lexeme = .colon then .ok (.value, enclosing) else .error .invalid
  | .separator, [] => .error .invalid
  | .separator, inObject :: outer =>
      if lexeme = .comma then
        .ok (if inObject then .name else .value, inObject :: outer)
      else if lexeme = (if inObject then .closeBrace else .closeBracket) then
        .ok (.separator, outer)
      else
        .error .invalid

/-- The lexemes after a value of which some was skipped already. -/
def skipFrom (expectation : Expectation) (enclosing : List Bool) :
    List Lexeme → Except Fault (List Lexeme)
  | [] => .error .ended
  | lexeme :: rest =>
      match skipStep expectation enclosing lexeme with
      | .error fault => .error fault
      | .ok (.separator, []) => .ok rest
      | .ok (expectation, enclosing) => skipFrom expectation enclosing rest

/-- Takes any value, to any depth. -/
def skip : Reader Unit := fun _ lexemes =>
  match skipFrom .value [] lexemes with
  | .ok rest => .ok ((), rest)
  | .error fault => .error (.fault fault)

/-! ### Any value -/

/-- The members after one of an object, up to its closing brace. -/
def moreMembers (value : Reader α) : Nat → Reader (List (String × α))
  | 0 => fail (.fault .ended)
  | steps + 1 => fun levels lexemes =>
      match lexemes with
      | [] => .error (.fault .ended)
      | .closeBrace :: rest => .ok ([], rest)
      | .comma :: rest => (do
          let key ← name
          punctuation .colon
          let first ← value
          let others ← moreMembers value steps
          return (key, first) :: others) levels rest
      | _ :: _ => .error (.fault .invalid)

/-- The members of an object after its opening brace. -/
def members (value : Reader α) : Reader (List (String × α)) := fun levels lexemes =>
  match lexemes with
  | .closeBrace :: rest => .ok ([], rest)
  | lexemes => (do
      let key ← name
      punctuation .colon
      let first ← value
      let others ← moreMembers value lexemes.length
      return (key, first) :: others) levels lexemes

/-- Any value nested in at most so many brackets. -/
def anyUpTo : Nat → Reader Json
  | 0 => fail (.fault .invalid)
  | depth + 1 => fun levels lexemes =>
      match lexemes with
      | [] => .error (.fault .ended)
      | .null :: rest => .ok (.null, rest)
      | .bool value :: rest => .ok (.bool value, rest)
      | .numeral numeral :: rest =>
          match numeral.value? with
          | some value => .ok (value, rest)
          | none => .error (.fault .invalid)
      | .text (some value) :: rest => .ok (.text value, rest)
      | .openBracket :: rest =>
          nested (Json.array <$> elements (anyUpTo depth)) levels rest
      | .openBrace :: rest =>
          nested (Json.object <$> members (anyUpTo depth)) levels rest
      | .broken _ onRead _ :: _ => .error (.fault onRead)
      | _ :: _ => .error (.fault .invalid)

/-- Any value. Its depth is at most one more than the number of brackets around its parts. -/
def any : Reader Json := fun levels => anyUpTo (levels + 1) levels

/-- Reads a whole text as one value. -/
def run (reader : Reader α) (levels : Nat) (text : List Char) : Except ReadError α :=
  match reader levels (lexemes text) with
  | .error error => .error error
  | .ok (value, []) => .ok value
  | .ok (_, _ :: _) => .error (.fault .invalid)

end Reader

end SyntaxTree.Json
