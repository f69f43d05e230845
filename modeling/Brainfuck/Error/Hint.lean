/-
Hints: one line of advice that may follow an error message. A hint is chosen
by the words of the message, in a fixed order of priority and without regard
to upper and lower case. The phrases looked for are ASCII, and no other
character has a lower-case form that could complete one of them, so lower
case is taken of ASCII letters alone.
-/

namespace Brainfuck

/-- What an error is about. -/
inductive Subject where
  | source
  | config
  deriving DecidableEq, Repr

/-- The subject of a given name. -/
def Subject.ofName? : String → Option Subject
  | "source" => some .source
  | "config" => some .config
  | _ => none

/-- A piece of advice. -/
inductive Hint where
  | checkPath
  | passTheFile
  | checkReadable
  | tryLatin1
  | usualSize
  deriving DecidableEq, Repr

namespace Hint

/-- The wording of a hint. -/
def text : Hint → String
  | checkPath => "Check the path; it is resolved relative to the current directory."
  | passTheFile => "Pass the program file itself, not the directory containing it."
  | checkReadable => "Check that the file is readable by the current user."
  | tryLatin1 => "Only the eight command characters matter; try --encoding latin-1."
  | usualSize => "The tape needs at least one cell. The usual size is 30000."

/-- Whether a phrase occurs in a text. -/
def occurs (phrase : List Char) : List Char → Bool
  | [] => phrase.isEmpty
  | c :: cs => phrase.isPrefixOf (c :: cs) || occurs phrase cs

/-- The phrases that call for a hint, most urgent first. -/
def phrases : Subject → List (String × Hint)
  | .source =>
    [("no such file", checkPath), ("is a directory", passTheFile),
      ("permission denied", checkReadable), ("codec", tryLatin1)]
  | .config => [("memory_size", usualSize)]

/-- The hint that a message calls for. -/
def about? (subject : Subject) (message : String) : Option Hint :=
  let words := message.toList.map Char.toLower
  ((phrases subject).find? fun p => occurs p.1.toList words).map (·.2)

end Hint

end Brainfuck
