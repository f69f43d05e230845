/-
The switches of the command line, what they are called, and the ways in which
a command line can be wrong, with the wording of each.
-/
import Brainfuck.Text.Quoted

namespace Brainfuck.CommandLine

/-- A switch. -/
inductive Switch where
  | help
  | memorySize
  | encoding
  | verbose
  deriving DecidableEq, Repr

namespace Switch

/-- Whether a value belongs to a switch. -/
def takesValue : Switch → Bool
  | help | verbose => false
  | memorySize | encoding => true

/-- Every spelling of every switch, in the order in which they are listed. -/
def spellings : List (String × Switch) :=
  [("-h", help), ("--help", help), ("-m", memorySize), ("--memory-size", memorySize),
    ("--encoding", encoding), ("-v", verbose), ("--verbose", verbose)]

/-- A switch in a message: all its spellings. -/
def shown : Switch → String
  | help => "-h/--help"
  | memorySize => "-m/--memory-size"
  | encoding => "--encoding"
  | verbose => "-v/--verbose"

/-- The switch of a full spelling. -/
def ofSpelling? (name : List Char) : Option Switch :=
  (spellings.find? fun p => p.1.toList == name).map (·.2)

/-- The switch of a letter after a single dash. -/
def ofLetter? (c : Char) : Option Switch :=
  ofSpelling? ['-', c]

/-- The spellings that begin with the given characters. -/
def candidates (start : List Char) : List (String × Switch) :=
  spellings.filter fun p => start.isPrefixOf p.1.toList

end Switch

/-- What is wrong with a command line. -/
inductive Misuse where
  /-- A shortened name could be completed in several ways. -/
  | ambiguous (word : String) (names : List String)
  /-- A switch lacks its value. -/
  | missingValue (s : Switch)
  /-- A value is attached to a switch that takes none. -/
  | unusedValue (s : Switch) (value : String)
  /-- A memory size is no integer. -/
  | invalidInteger (value : String)
  /-- No program file is named. -/
  | missingFile
  /-- Words are left that mean nothing. -/
  | unrecognized (words : List String)
  deriving DecidableEq, Repr

/-- The wording of a misuse. -/
def Misuse.message : Misuse → String
  | ambiguous word names =>
    "ambiguous option: " ++ word ++ " could match " ++ Text.enumerated names
  | missingValue s => "argument " ++ s.shown ++ ": expected one argument"
  | unusedValue s value =>
    "argument " ++ s.shown ++ ": ignored explicit argument " ++ Text.quoted value
  | invalidInteger value =>
    "argument " ++ Switch.memorySize.shown ++ ": invalid int value: " ++ Text.quoted value
  | missingFile => "the following arguments are required: input_file"
  | unrecognized words => "unrecognized arguments: " ++ String.intercalate " " words

end Brainfuck.CommandLine
