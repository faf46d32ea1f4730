import SyntaxTree.Text.Quoted

/-!
# Inputs

What commands read from: a standard input, and files by their names. Reading may be an effect of
any monad, and a file may refuse it.
-/

namespace SyntaxTree

/-- Why a file cannot be read. -/
inductive FileError where
  | notFound
  | permissionDenied
  | notDirectory
  | isDirectory
  | nameTooLong
  | tooManyLinks
  | notText
  | other (code : Nat) (message : String)
deriving DecidableEq

namespace FileError

/-- A fault as the operating system numbers, classes and words it. -/
def numbered (code : Nat) (kind message : String) : String :=
  let message := String.ofList (Text.quoted message)
  s!"Os \x7b code: {code}, kind: {kind}, message: {message} \x7d"

def description : FileError → String
  | .notFound => numbered 2 "NotFound" "No such file or directory"
  | .permissionDenied => numbered 13 "PermissionDenied" "Permission denied"
  | .notDirectory => numbered 20 "NotADirectory" "Not a directory"
  | .isDirectory => numbered 21 "IsADirectory" "Is a directory"
  | .nameTooLong => numbered 36 "InvalidFilename" "File name too long"
  | .tooManyLinks => numbered 40 "FilesystemLoop" "Too many levels of symbolic links"
  | .notText =>
      let message := String.ofList (Text.quoted "stream did not contain valid UTF-8")
      s!"Error \x7b kind: InvalidData, message: {message} \x7d"
  | .other code message => numbered code "Uncategorized" message

end FileError

/-- Where commands read from. -/
structure Inputs (m : Type → Type) where
  standard : m (Except FileError String)
  file : String → m (Except FileError String)

end SyntaxTree
