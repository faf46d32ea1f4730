import SyntaxTree.Command

/-!
# The program

Runs the command that the arguments spell on the files of the system. Wrong usage exits with code
two, a failed command with code one.
-/

namespace SyntaxTree

/-- The number of a fault, which some reads give negated. -/
def systemNumber (code : UInt32) : Nat := min code.toNat (0 - code).toNat

/-- What the operating system says about a failed read. -/
def FileError.ofSystem : IO.Error → FileError
  | .noFileOrDirectory .. => .notFound
  | .permissionDenied .. => .permissionDenied
  | .inappropriateType _ code _ => if systemNumber code = 20 then .notDirectory else .isDirectory
  | .invalidArgument _ code message =>
      match systemNumber code with
      | 36 => .nameTooLong
      | 40 => .tooManyLinks
      | number => .other number message
  | .userError _ => .notText
  | error => .other 5 (toString error)

def systemInputs : Inputs BaseIO where
  standard := do
    let stdin ← IO.getStdin
    match ← stdin.readToEnd.toBaseIO with
    | .ok text => return .ok text
    | .error error => return .error (.ofSystem error)
  file name := do
    match ← (IO.FS.readFile name).toBaseIO with
    | .ok text => return .ok text
    | .error error => return .error (.ofSystem error)

/-- Runs the command that the arguments spell and gives the exit code. -/
def runProgram (arguments : List String) : IO UInt32 := do
  match Command.ofArguments? arguments with
  | none =>
      IO.eprint HelpPage.program.text
      return 2
  | some command =>
      match ← (command.run systemInputs).run with
      | .ok output =>
          IO.print output
          return 0
      | .error failure =>
          IO.eprint failure.report
          return 1

end SyntaxTree

def main (arguments : List String) : IO UInt32 := SyntaxTree.runProgram arguments
