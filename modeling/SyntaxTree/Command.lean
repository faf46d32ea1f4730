import SyntaxTree.CanonicalForm
import SyntaxTree.Help
import SyntaxTree.Inputs
import SyntaxTree.Interchange
import SyntaxTree.NodeWalk

/-!
# The command line

Three commands look at a tree in a JSON file: one prints its canonical form, or its JSON in
indented form; one compares its canonical form with a snapshot; one shows the kind and the flags
of its root. A fourth prints help. They are stated over any way of reading files.
-/

namespace SyntaxTree

open Json (ReadError)

/-- A command. Help without a topic is about the program. -/
inductive Command where
  | print (file : String) (asJson : Bool)
  | check (file snapshot : String)
  | flags (file : String)
  | help (topic : Option Topic)
deriving DecidableEq

/-- What an argument is where options are allowed. -/
inductive ArgumentRole where
  | separator
  | help
  | option
  | operand
deriving DecidableEq

/-- A dash alone is an operand. The letter of the help flag counts whatever follows it. -/
def ArgumentRole.ofArgument (argument : String) : ArgumentRole :=
  match argument.toList with
  | ['-'] => .operand
  | ['-', '-'] => .separator
  | '-' :: 'h' :: _ => .help
  | '-' :: _ => if argument = "--help" then .help else .option
  | _ => .operand

/-- What the arguments after the name of a command say. -/
inductive Invocation where
  | help
  | given (operands options : List String)
deriving DecidableEq

namespace Invocation

def addOperand (operand : String) : Invocation → Invocation
  | .help => .help
  | .given operands options => .given (operand :: operands) options

def addOption (option : String) : Invocation → Invocation
  | .help => .help
  | .given operands options => .given operands (option :: options)

/-- Reads arguments from left to right, as far as a flag that asks for help. The command takes so
many operands, and each of the options once; none at the first argument that it does not take. -/
def read (options : List String) (count : Nat) : List String → Option Invocation
  | [] => if count = 0 then some (.given [] []) else none
  | argument :: rest =>
      match ArgumentRole.ofArgument argument with
      | .separator => if rest.length = count then some (.given rest []) else none
      | .help => some .help
      | .option =>
          if options.contains argument then
            (read (options.erase argument) count rest).map (addOption argument)
          else
            none
      | .operand =>
          match count with
          | 0 => none
          | count + 1 => (read options count rest).map (addOperand argument)

end Invocation

namespace Command

/-- The command that the arguments after its name spell. -/
def ofInvocation? : Topic → List String → Option Command
  | .print, arguments =>
      match Invocation.read ["--json"] 1 arguments with
      | some .help => some (.help (some .print))
      | some (.given [file] options) => some (.print file (!options.isEmpty))
      | _ => none
  | .check, arguments =>
      match Invocation.read [] 2 arguments with
      | some .help => some (.help (some .check))
      | some (.given [file, snapshot] _) => some (.check file snapshot)
      | _ => none
  | .flags, arguments =>
      match Invocation.read [] 1 arguments with
      | some .help => some (.help (some .flags))
      | some (.given [file] _) => some (.flags file)
      | _ => none
  | .help, [] => some (.help none)
  | .help, [name] => (Topic.ofName? name).map (fun topic => .help (some topic))
  | .help, _ => none

/-- The command that the arguments spell, none if they are used wrongly. -/
def ofArguments? : List String → Option Command
  | [] => none
  | argument :: rest =>
      match Topic.ofName? argument with
      | some topic => ofInvocation? topic rest
      | none =>
          if ArgumentRole.ofArgument argument = .help then some (.help none) else none

end Command

/-- Why a command fails. -/
inductive Failure where
  | unreadable (error : FileError)
  | reading (error : ReadError)
  | printing (error : UnprintableLiteral)
  | mismatch (file : String) (expected actual : List Char)

namespace Failure

def description : Failure → String
  | .unreadable error => error.description
  | .reading (.data error) => error.message
  | .reading (.fault .invalid) => "not JSON"
  | .reading (.fault .ended) => "JSON text ends too early"
  | .printing error => error.message
  | .mismatch file expected actual =>
      let expected := String.ofList expected
      let actual := String.ofList actual
      String.ofList (Text.quoted
        s!"snapshot mismatch for {file}\n  expected: {expected}\n  actual:   {actual}")

/-- The line that reports a failure. -/
def report (failure : Failure) : String :=
  let description := failure.description
  s!"Error: {description}\n"

end Failure

namespace Command

variable {m : Type → Type} [Monad m]

/-- A command's steps, each of which may fail. -/
abbrev Step (m : Type → Type) := ExceptT Failure m

def readFile (inputs : Inputs m) (file : String) : Step m String := do
  match ← (inputs.file file : m _) with
  | .ok text => return text
  | .error error => throw (.unreadable error)

/-- Reads a file, or standard input for a dash. -/
def readInput (inputs : Inputs m) (file : String) : Step m String :=
  if file = "-" then do
    match ← (inputs.standard : m _) with
    | .ok text => return text
    | .error error => throw (.unreadable error)
  else
    readFile inputs file

def load (inputs : Inputs m) (file : String) : Step m Node := do
  let text ← readInput inputs file
  match Node.ofJsonText text with
  | .ok node => return node
  | .error error => throw (.reading error)

def canonical (node : Node) : Step m (List Char) :=
  match node.canonical with
  | .ok text => return text
  | .error error => throw (.printing error)

/-- A text without the line ends it ends in. -/
def trimLineEnds (text : List Char) : List Char :=
  (text.reverse.dropWhile (fun char => char == '\n' || char == '\r')).reverse

/-- The lines that show the root of a tree. -/
def describe (node : Node) : String :=
  let kind := node.kind.name
  let lvalue := node.isLValue
  let rvalue := node.isRValue
  let statement := node.isStatement
  let count := node.walk.length
  s!"kind: {kind}\nlvalue: {lvalue}\nrvalue: {rvalue}\nstatement: {statement}\nnodes: {count}\n"

/-- What a command prints. The tree is read before the snapshot. -/
def run (inputs : Inputs m) : Command → Step m String
  | .print file false => do
      let text ← canonical (← load inputs file)
      return String.ofList (text ++ ['\n'])
  | .print file true => do
      let node ← load inputs file
      return String.ofList (node.toJson.pretty 0 ++ ['\n'])
  | .check file snapshot => do
      let actual ← canonical (← load inputs file)
      let expected := trimLineEnds (← readFile inputs snapshot).toList
      if actual = expected then
        return ""
      else
        throw (.mismatch file expected actual)
  | .flags file => do
      return describe (← load inputs file)
  | .help none => return HelpPage.program.text
  | .help (some topic) => return topic.page.text

end Command

end SyntaxTree
