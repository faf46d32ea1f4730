import SyntaxTree.Json.Numeral
import SyntaxTree.Json.TextScan

/-!
# JSON lexemes

A JSON text is cut into lexemes before it is read. The first thing that is no lexeme ends the
list with what was begun there, so that a reader meets faults of the text in the order in which
they stand, together with faults of what the text says.

A text can be faulty for one reader and sound for another: a value that is skipped may hold
surrogate escapes without their partners, and a number cut short is a wrong number there.
-/

namespace SyntaxTree.Json

/-- What is wrong with a text: it goes on wrongly, or it ends too early. -/
inductive Fault where
  | invalid
  | ended
deriving DecidableEq

/-- The kinds of values that are written as one lexeme. -/
inductive ScalarKind where
  | null
  | bool
  | number
  | text
deriving DecidableEq

inductive Lexeme where
  | openBrace
  | closeBrace
  | openBracket
  | closeBracket
  | colon
  | comma
  | null
  | bool (value : Bool)
  | numeral (value : Numeral)
  /-- The content of a text, none if it has a surrogate escape without its partner. -/
  | text (content : Option String)
  /-- A scalar that is wrong or cut short, with the fault for a reader and for a skipper. -/
  | broken (kind : ScalarKind) (onRead onSkip : Fault)
  /-- A character that starts nothing. -/
  | stray
deriving DecidableEq

/-- The number scanned so far, or a number cut short. -/
def NumeralScan.lexeme (scan : NumeralScan) : Lexeme :=
  match scan.numeral? with
  | some numeral => .numeral numeral
  | none => .broken .number .ended .invalid

/-- A text that the end cuts off. A surrogate known to have no partner is the earlier fault. -/
def TextScan.lexeme (scan : TextScan) : Lexeme :=
  .broken .text (if scan.content.isNone then .invalid else .ended) .ended

/-- What the scanner is in the middle of. -/
inductive ScanMode where
  | between
  | word (left : List Char) (lexeme : Lexeme)
  | numeral (scan : NumeralScan)
  | text (scan : TextScan)
  | halted

/-- The lexemes found so far, the last one first, and what comes next. -/
structure Scanner where
  found : List Lexeme := []
  mode : ScanMode := .between

namespace Scanner

def isBlank (char : Char) : Bool :=
  char == ' ' || char == '\t' || char == '\n' || char == '\r'

def emit (lexeme : Lexeme) (scanner : Scanner) : Scanner :=
  ⟨lexeme :: scanner.found, .between⟩

/-- The scanner after a lexeme that ends the list. -/
def halt (lexeme : Lexeme) (scanner : Scanner) : Scanner := ⟨lexeme :: scanner.found, .halted⟩

def enter (mode : ScanMode) (scanner : Scanner) : Scanner := ⟨scanner.found, mode⟩

/-- The first character of a lexeme, or a blank before it. -/
def start (scanner : Scanner) (char : Char) : Scanner :=
  match char with
  | '{' => scanner.emit .openBrace
  | '}' => scanner.emit .closeBrace
  | '[' => scanner.emit .openBracket
  | ']' => scanner.emit .closeBracket
  | ':' => scanner.emit .colon
  | ',' => scanner.emit .comma
  | 'n' => scanner.enter (.word ['u', 'l', 'l'] .null)
  | 't' => scanner.enter (.word ['r', 'u', 'e'] (.bool true))
  | 'f' => scanner.enter (.word ['a', 'l', 's', 'e'] (.bool false))
  | '"' => scanner.enter (.text {})
  | '-' => scanner.enter (.numeral { phase := .sign, negative := true })
  | '0' => scanner.enter (.numeral { phase := .zero, negative := false })
  | char =>
      if char.isDigit then
        scanner.enter (.numeral
          { phase := .whole, negative := false, significand := NumeralScan.digitValue char })
      else if isBlank char then
        scanner.enter .between
      else
        scanner.halt .stray

/-- The kind of scalar that a word is. -/
def wordKind : Lexeme → ScalarKind
  | .null => .null
  | _ => .bool

def step (scanner : Scanner) (char : Char) : Scanner :=
  match scanner.mode with
  | .between => scanner.start char
  | .word [] lexeme => (scanner.emit lexeme).start char
  | .word (letter :: left) lexeme =>
      if char == letter then
        if left.isEmpty then scanner.emit lexeme else scanner.enter (.word left lexeme)
      else
        scanner.halt (.broken (wordKind lexeme) .invalid .invalid)
  | .numeral scan =>
      match scan.step char with
      | .more scan => scanner.enter (.numeral scan)
      | .done => (scanner.emit scan.lexeme).start char
      | .wrong => scanner.halt (.broken .number .invalid .invalid)
  | .text scan =>
      match scan.step char with
      | .more scan => scanner.enter (.text scan)
      | .done content => scanner.emit (.text content)
      | .wrong => scanner.halt (.broken .text .invalid .invalid)
  | .halted => scanner

/-- The lexemes in order, the last one as the end of the text leaves it. -/
def finish (scanner : Scanner) : List Lexeme :=
  match scanner.mode with
  | .between | .halted => scanner.found.reverse
  | .word _ lexeme => (Lexeme.broken (wordKind lexeme) .ended .ended :: scanner.found).reverse
  | .numeral scan => (scan.lexeme :: scanner.found).reverse
  | .text scan => (scan.lexeme :: scanner.found).reverse

end Scanner

/-- The lexemes of a text. -/
def lexemes (text : List Char) : List Lexeme := (text.foldl Scanner.step {}).finish

end SyntaxTree.Json
