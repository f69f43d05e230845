/-
Code as it is shown when it is not run: each instruction by its name, a loop
with its body in parentheses.
-/
import Brainfuck.Code
import Brainfuck.Text.Quoted

namespace Brainfuck

/-- What is no instruction, as a message shows it. -/
def Foreign.shown : Foreign → String
  | text s => Text.quoted s
  | command c => "<Token." ++ c.name ++ ": " ++ Text.quoted (String.singleton c.symbol) ++ ">"

namespace Code

/-- Each instruction of the top level as it is shown. -/
def shown : Code → List String
  | nil => []
  | act a k => (a.name ++ "()") :: k.shown
  | loop b k => ("Loop(body=" ++ Text.tuple b.shown ++ ")") :: k.shown
  | foreign f k => f.shown :: k.shown

/-- A whole program as it is shown. -/
def shownProgram (k : Code) : String :=
  "Program(instructions=" ++ Text.tuple k.shown ++ ")"

end Code

end Brainfuck
