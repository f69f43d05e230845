/-
A program to try the interpreter with.
-/
import Brainfuck.Command

namespace Brainfuck

/-- A program text that writes a greeting and a line feed. -/
def helloWorld : String :=
  "++++++++[>++++[>++>+++>+++>+<<<<-]>+>+>->>+[<]<-]" ++
    ">>.>---.+++++++..+++.>>.<-.<.+++.------.--------.>>+.>++."

end Brainfuck
