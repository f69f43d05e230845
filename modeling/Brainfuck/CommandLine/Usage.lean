/-
The texts that the command line answers with when no program is run: how it
is used, in one line and at length.
-/
import Brainfuck.CommandLine.Switch

namespace Brainfuck.CommandLine

/-- How the program is used, in one line. -/
def usage : String :=
  "usage: bfi [-h] [-m MEMORY_SIZE] [--encoding ENCODING] [-v] input_file\n"

/-- How the program is used, at length. -/
def help : String :=
  usage ++
    "\n" ++
    "Brainfuck interpreter with a circular tape of wrapping 8-bit cells.\n" ++
    "\n" ++
    "positional arguments:\n" ++
    "  input_file            Path to the file to be interpreted\n" ++
    "\n" ++
    "options:\n" ++
    "  -h, --help            show this help message and exit\n" ++
    "  -m MEMORY_SIZE, --memory-size MEMORY_SIZE\n" ++
    "                        Number of cells in the memory (default 30000)\n" ++
    "  --encoding ENCODING   Source file encoding (default utf-8)\n" ++
    "  -v, --verbose         Log interpreter activity to stderr\n"

/-- An error as it is told to the user. -/
def errorLine (message : String) : String :=
  "bfi: error: " ++ message ++ "\n"

/-- What is told to the user about a misuse. -/
def misuseText (e : Misuse) : String :=
  usage ++ errorLine e.message

end Brainfuck.CommandLine
