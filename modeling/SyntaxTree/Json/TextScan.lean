/-!
# JSON texts

A text literal is scanned character by character. Escapes by number name units of 16 bits, and
characters beyond them are two escapes in a row, a leading and a trailing surrogate. A surrogate
without its partner leaves the literal well formed but without a content.
-/

namespace SyntaxTree.Json

/-- Where a text that is being scanned stands within an escape. -/
inductive EscapePhase where
  | plain
  | backslash
  /--
  After `\u`, four bytes are taken before they are judged, so that a text with fewer left has
  ended rather than gone wrong. The value is none once a byte was no digit.
  -/
  | hex (bytesLeft : Nat) (value : Option Nat)
deriving DecidableEq

/-- A text that is being scanned. -/
structure TextScan where
  phase : EscapePhase := .plain
  /-- The characters so far, the last one first, none once a surrogate had no partner. -/
  content : Option (List Char) := some []
  /-- A leading surrogate whose partner must follow at once. -/
  lead : Option Nat := none
deriving DecidableEq

namespace TextScan

/-- The content after one more character. A leading surrogate before it has no partner then. -/
def push (char : Char) (scan : TextScan) : TextScan where
  phase := .plain
  content := if scan.lead.isSome then none else scan.content.map (char :: ·)
  lead := none

def isLead (unit : Nat) : Bool := 0xD800 ≤ unit && unit < 0xDC00

def isTrail (unit : Nat) : Bool := 0xDC00 ≤ unit && unit < 0xE000

/-- The content after a numbered escape, where two surrogates in a row are one character. -/
def pushUnit (unit : Nat) (scan : TextScan) : TextScan :=
  match scan.lead with
  | some lead =>
      if isTrail unit then
        let char := Char.ofNat (0x10000 + (lead - 0xD800) * 0x400 + (unit - 0xDC00))
        { phase := .plain, content := scan.content.map (char :: ·), lead := none }
      else
        { phase := .plain, content := none, lead := none }
  | none =>
      if isLead unit then { scan with phase := .plain, lead := some unit }
      else if isTrail unit then { phase := .plain, content := none, lead := none }
      else scan.push (Char.ofNat unit)

def hexDigit? (char : Char) : Option Nat :=
  if char.isDigit then some (char.toNat - '0'.toNat)
  else if 'a' ≤ char && char ≤ 'f' then some (char.toNat - 'a'.toNat + 10)
  else if 'A' ≤ char && char ≤ 'F' then some (char.toNat - 'A'.toNat + 10)
  else none

/-- The character of an escape by one letter. -/
def shortEscape? : Char → Option Char
  | '"' => some '"'
  | '\\' => some '\\'
  | '/' => some '/'
  | 'b' => some '\x08'
  | 'f' => some '\x0c'
  | 'n' => some '\n'
  | 'r' => some '\r'
  | 't' => some '\t'
  | _ => none

inductive Outcome where
  | more (scan : TextScan)
  | done (content : Option String)
  | wrong

/-- The text up to its closing quote. -/
def finished (scan : TextScan) : Option String :=
  if scan.lead.isSome then none else scan.content.map (fun chars => String.ofList chars.reverse)

def step (scan : TextScan) (char : Char) : Outcome :=
  match scan.phase with
  | .plain =>
      if char == '"' then .done scan.finished
      else if char == '\\' then .more { scan with phase := .backslash }
      else if char.toNat < 0x20 then .wrong
      else .more (scan.push char)
  | .backslash =>
      if char == 'u' then .more { scan with phase := .hex 4 (some 0) }
      else
        match shortEscape? char with
        | some escaped => .more (scan.push escaped)
        | none => .wrong
  | .hex bytesLeft value =>
      let bytesLeft := bytesLeft - char.utf8Size
      let value := value.bind (fun high => (hexDigit? char).map (16 * high + ·))
      if bytesLeft ≠ 0 then .more { scan with phase := .hex bytesLeft value }
      else
        match value with
        | some unit => .more (scan.pushUnit unit)
        | none => .wrong

end TextScan

end SyntaxTree.Json
