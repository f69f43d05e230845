/-
Paths of files. A path in plain form has no doubled and no trailing slash
and no component that is a single dot; two dots stay, as what they lead to is
for the files to say. Exactly two slashes at the front stay two; any other
number of them is one.
-/

namespace Brainfuck.Path

/-- The pieces of a text between slashes. -/
def pieces : List Char → List (List Char)
  | [] => [[]]
  | '/' :: cs => [] :: pieces cs
  | c :: cs =>
    match pieces cs with
    | [] => [[c]]
    | p :: ps => (c :: p) :: ps

/-- The components of a path. -/
def components (path : String) : List String :=
  ((pieces path.toList).map String.ofList).filter fun p => p != "" && p != "."

/-- What a path starts from: nothing, or slashes. -/
def root (path : String) : String :=
  match path.toList with
  | '/' :: '/' :: '/' :: _ => "/"
  | '/' :: '/' :: _ => "//"
  | '/' :: _ => "/"
  | _ => ""

/-- A path in plain form. -/
def plain (path : String) : String :=
  let text := root path ++ String.intercalate "/" (components path)
  if text.isEmpty then "." else text

/-- Whether a path starts from the top of the file system. -/
def isAbsolute (path : String) : Bool :=
  root path != ""

end Brainfuck.Path
