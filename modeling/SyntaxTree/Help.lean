/-!
# Help pages

What the program tells about itself and about each of its commands: a sentence, the form of a
call, and what the call may hold, in lists of two columns.
-/

namespace SyntaxTree

/-- What the program can be asked about. -/
inductive Topic where
  | print
  | check
  | flags
  | help
deriving DecidableEq

namespace Topic

def name : Topic → String
  | .print => "print"
  | .check => "check"
  | .flags => "flags"
  | .help => "help"

/-- Every topic, in the order in which the program lists them. -/
def all : List Topic := [.print, .check, .flags, .help]

def ofName? (name : String) : Option Topic := all.find? (fun topic => topic.name == name)

def about : Topic → String
  | .print => "Print the canonical s-expression form of a JSON tree"
  | .check => "Compare the canonical form of a JSON tree with a snapshot"
  | .flags => "Show the root node's kind and flags"
  | .help => "Print this message or the help of the given subcommand(s)"

end Topic

/-- A list of a help page. An entry is something to write and what it means. -/
structure HelpList where
  title : String
  entries : List (String × String)

namespace HelpList

/-- The width of the first column, which is that of its widest entry. -/
def width (list : HelpList) : Nat := (list.entries.map (fun entry => entry.1.length)).max?.getD 0

def row (width : Nat) (entry : String × String) : String :=
  "  " ++ entry.1 ++ String.ofList (List.replicate (width - entry.1.length) ' ') ++ "  "
    ++ entry.2 ++ "\n"

def text (list : HelpList) : String :=
  list.title ++ ":\n" ++ String.join (list.entries.map (row list.width))

end HelpList

structure HelpPage where
  about : String
  usage : String
  lists : List HelpList

namespace HelpPage

/-- The page as printed, with a blank line between its parts. -/
def text (page : HelpPage) : String :=
  page.about ++ "\n\nUsage: espresso " ++ page.usage ++ "\n"
    ++ String.join (page.lists.map (fun list => "\n" ++ list.text))

def inputFile : String × String := ("<FILE>", "Input JSON file (or - for stdin)")

def helpFlag : String × String := ("-h, --help", "Print help")

/-- The page of the program. -/
def program : HelpPage where
  about := "Inspect Espresso syntax trees"
  usage := "<COMMAND>"
  lists :=
    [⟨"Commands", Topic.all.map (fun topic => (topic.name, topic.about))⟩,
      ⟨"Options", [helpFlag]⟩]

end HelpPage

/-- The page of a topic. An option without a letter leaves the place of the letter blank. -/
def Topic.page (topic : Topic) : HelpPage :=
  match topic with
  | .print =>
      ⟨topic.about, "print [OPTIONS] <FILE>",
        [⟨"Arguments", [HelpPage.inputFile]⟩,
          ⟨"Options",
            [("    --json", "Print the validated tree as JSON instead"), HelpPage.helpFlag]⟩]⟩
  | .check =>
      ⟨topic.about, "check <FILE> <SNAPSHOT>",
        [⟨"Arguments",
            [HelpPage.inputFile,
              ("<SNAPSHOT>", "Snapshot file holding the expected s-expression")]⟩,
          ⟨"Options", [HelpPage.helpFlag]⟩]⟩
  | .flags =>
      ⟨topic.about, "flags <FILE>",
        [⟨"Arguments", [HelpPage.inputFile]⟩, ⟨"Options", [HelpPage.helpFlag]⟩]⟩
  | .help =>
      ⟨topic.about, "help [COMMAND]...",
        [⟨"Arguments", [("[COMMAND]...", "Print help for the subcommand(s)")]⟩]⟩

end SyntaxTree
