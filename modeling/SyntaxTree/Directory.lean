import SyntaxTree.Inputs

/-!
# Directories in memory

A working directory among files that are listed with their paths from the root, so that commands
run without a system. A path is followed step by step: an empty step and `.` stay, `..` goes up,
and nothing lies below a file.
-/

namespace SyntaxTree

structure Directory where
  place : List String
  files : List (List String × String)

namespace Directory

/-- The bytes that one step of a path may have. -/
def stepLimit : Nat := 255

/-- The bytes that a path may have. -/
def pathLimit : Nat := 4095

/-- The pieces between the slashes of a text. -/
def splitSlashes : List Char → List (List Char)
  | [] => [[]]
  | char :: rest =>
      match splitSlashes rest with
      | [] => [[char]]
      | step :: others =>
          if char = '/' then [] :: step :: others else (char :: step) :: others

def steps (path : String) : List String := (splitSlashes path.toList).map String.ofList

/-- A working directory with files that are named by paths from it. -/
def ofFiles (place : List String) (files : List (String × String)) : Directory where
  place := place
  files := files.map (fun file => (place ++ steps file.1, file.2))

/-- The same working directory, with one more file. -/
def withFile (directory : Directory) (path : List String) (text : String) : Directory :=
  { directory with files := (path, text) :: directory.files }

/-- A path leads to a directory if something lies below it, or it is the working one. -/
def isDirectory (directory : Directory) (path : List String) : Bool :=
  path.isPrefixOf directory.place ||
    directory.files.any (fun file => path.isPrefixOf file.1 && path != file.1)

/-- The text of the file that the steps lead to from a directory. -/
def follow (directory : Directory) (place : List String) :
    List String → Except FileError String
  | [] => .error .isDirectory
  | step :: rest =>
      let path := place ++ [step]
      if step = "" || step = "." then
        directory.follow place rest
      else if step = ".." then
        directory.follow place.dropLast rest
      else if stepLimit < step.utf8ByteSize then
        .error .nameTooLong
      else if directory.isDirectory path then
        directory.follow path rest
      else
        match directory.files.lookup path with
        | none => .error .notFound
        | some text => if rest.isEmpty then .ok text else .error .notDirectory

def read (directory : Directory) (path : String) : Except FileError String :=
  if path = "" then .error .notFound
  else if pathLimit < path.utf8ByteSize then .error .nameTooLong
  else directory.follow (if path.startsWith "/" then [] else directory.place) (steps path)

/-- The inputs of a command that runs in a directory. -/
def inputs (directory : Directory) (standard : String) : Inputs Id where
  standard := .ok standard
  file := directory.read

end Directory

end SyntaxTree
