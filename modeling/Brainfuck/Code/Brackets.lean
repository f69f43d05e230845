/-
How the brackets of a command sequence become loops. No sequence is refused:
a closing bracket closes the innermost loop that is open; one that has no
loop to close ends the program there, whatever follows it; and a loop still
open at the end of the commands ends there too.

`Code.ofCommands` reads the commands once, from left to right, and keeps the
bodies that are still being written on a stack, innermost first, each of
them with its newest instruction first.
-/
import Brainfuck.Code

namespace Brainfuck.Code

/-- Ends every open loop, innermost first: `current` is the innermost body,
`enclosing` are the bodies around it. -/
def closeAll (current : Code) : List Code → Code
  | [] => current.reverse
  | outer :: enclosing => closeAll (loop current.reverse outer) enclosing

/-- Reads commands into the innermost open body `current`, inside the bodies
`enclosing`. -/
def build (current : Code) (enclosing : List Code) : List Command → Code
  | [] => closeAll current enclosing
  | .act a :: cs => build (act a current) enclosing cs
  | .openLoop :: cs => build nil (current :: enclosing) cs
  | .closeLoop :: cs =>
    match enclosing with
    | [] => current.reverse
    | outer :: enclosing => build (loop current.reverse outer) enclosing cs

/-- The program that a command sequence writes down. -/
def ofCommands (cs : List Command) : Code :=
  build nil [] cs

/-- The program of a program text. -/
def parse (t : ProgramText) : Code :=
  ofCommands t.commands

end Brainfuck.Code
