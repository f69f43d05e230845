/-
The program: the command line over the real files and streams. Everything is
decided by `CommandLine`; here the program file is opened, a byte of input is
read whenever the running program asks for one, and the outcome is written
out. Of codecs there are none but the encodings of the library.
-/
import Brainfuck.CommandLine

namespace Brainfuck.Main

/-- The reason that goes with an error number of the system, where it is one
of the usual ones, else the reason as given. Some calls give the number
negated. -/
def reasonOf (number : UInt32) (given : String) : String :=
  match (min number (0 - number)).toNat with
  | 13 => "Permission denied"
  | 20 => "Not a directory"
  | 21 => "Is a directory"
  | 36 => "File name too long"
  | _ => given

/-- The cause that a failure to open a file comes down to. -/
def causeOf : IO.Error → Cause
  | .noFileOrDirectory .. => .missing
  | .permissionDenied _ number given => .system (reasonOf number given)
  | .inappropriateType _ number given => .system (reasonOf number given)
  | .invalidArgument _ number given => .system (reasonOf number given)
  | e => .system (toString e)

/-- What opening a file gives. -/
def openFile (path : String) : IO (Except Cause (List UInt8)) := do
  try
    return .ok (← IO.FS.readBinFile path).toList
  catch e =>
    return .error (causeOf e)

/-- The next byte of the input, if there is one. -/
def nextByte (stdin : IO.FS.Stream) : IO Reply := do
  return .data (← stdin.read 1).toList

/-- Runs a machine to its end; a read gets the next byte of the input. -/
partial def finish (stdin : IO.FS.Stream) (m : Machine) : IO Progress := do
  let fed ← if m.awaitsInput then m.feed <$> nextByte stdin else pure m
  match fed.step with
  | .running next => finish stdin next
  | ended => return ended

/-- Carries out what a command line asks for. -/
def carryOut (args : CommandLine.Arguments) : IO CommandLine.Outcome := do
  let opened ← openFile (Path.plain args.inputFile)
  match CommandLine.prepare .empty (fun _ => opened) args with
  | .error outcome => return outcome
  | .ok ready =>
    let i := ready.interpreter (Source.ofBytes #[])
    return ready.outcome (← finish (← IO.getStdin) (i.machine ready.code)).close

end Brainfuck.Main

/-- The program's entry. A failure that is not meant for the user is thrown. -/
def main (argv : List String) : IO UInt32 := do
  let outcome ←
    match Brainfuck.CommandLine.Arguments.parse argv with
    | .error e => pure e.outcome
    | .ok args => Brainfuck.Main.carryOut args
  let stdout ← IO.getStdout
  stdout.write ⟨outcome.stdout⟩
  stdout.flush
  IO.eprint outcome.stderr
  match outcome.answer with
  | .status n => return n.toUInt32
  | .escaped failure => throw (IO.userError failure.message)
