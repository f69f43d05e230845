/-
The command line as a function of its words, the codecs and files at hand and
the input. A command that asks for help, or is wrong, runs nothing; otherwise
the options are checked, the program file is read, and the program runs. A
failure that is meant for the user becomes an error line, with the hint on a
line of its own, and status 1, and arises before any input is read; any other
failure is handed on (`Answer.escaped`).
-/
import Brainfuck.CommandLine.Arguments
import Brainfuck.CommandLine.Usage
import Brainfuck.Run

namespace Brainfuck.CommandLine

/-- How a command ends: with a status, or with a failure that is handed on. -/
inductive Answer where
  | status (n : Nat)
  | escaped (f : Failure)

/-- What a command does: how it ends, what it writes to either output, and
how many reads of the input it makes. -/
structure Outcome where
  answer : Answer
  stdout : Array UInt8
  stderr : String
  reads : Nat

/-- A command ready to run its program. -/
structure Ready where
  code : Code
  options : Options
  verbose : Bool

namespace Exit

/-- The status of a command that is not carried out. -/
def status : Exit → Nat
  | help => 0
  | misuse _ => 2

/-- What such a command writes to its output. -/
def stdout : Exit → String
  | help => CommandLine.help
  | misuse _ => ""

/-- What such a command writes to its error output. -/
def stderr : Exit → String
  | help => ""
  | misuse e => misuseText e

/-- Such a command as a whole. -/
def outcome (e : Exit) : Outcome :=
  ⟨.status e.status, e.stdout.toUTF8.data, e.stderr, 0⟩

end Exit

/-- What is told to the user about a failure: the error, and the hint if there
is one. -/
def reportText (f : Failure) : String :=
  match f.hint? with
  | some hint => errorLine f.message ++ "Hint: " ++ hint.text ++ "\n"
  | none => errorLine f.message

/-- The lines of a log. -/
def logText (log : List Event) : String :=
  String.join (log.map fun e => e.line ++ "\n")

/-- The outcome of a command that ends in a failure, after what it has written
to either output. -/
def failed (f : Failure) (stdout : Array UInt8) (stderr : String) (reads : Nat) : Outcome :=
  if f.isReport then ⟨.status 1, stdout, stderr ++ reportText f, reads⟩
  else ⟨.escaped f, stdout, stderr, reads⟩

namespace Ready

/-- The program of a command, with the options it runs under. -/
def ofArguments (codecs : Codecs) (disk : Disk) (args : Arguments) : Except Failure Ready :=
  match Options.ofValue (.int args.memorySize) args.encoding with
  | .error e => .error (.config e)
  | .ok options =>
    match loadProgram codecs disk args.inputFile options.encoding with
    | .error failure => .error failure
    | .ok code => .ok ⟨code, options, args.verbose⟩

/-- The interpreter that a command runs its program on. -/
def interpreter (r : Ready) (source : Source) : Interpreter :=
  Interpreter.new r.options.memorySize source (Sink.empty none)

/-- The outcome of a command whose program has been run. The log is shown if
asked for. -/
def outcome (r : Ready) (run : Ending × Interpreter) : Outcome :=
  let i := run.2
  let stderr := if r.verbose then logText i.log else ""
  match run.1.failure? with
  | none => ⟨.status 0, i.sink.held, stderr, i.source.reads⟩
  | some f => failed f i.sink.held stderr i.source.reads

end Ready

/-- Everything between reading the command line and running the program. -/
def prepare (codecs : Codecs) (disk : Disk) (args : Arguments) : Except Outcome Ready :=
  match Ready.ofArguments codecs disk args with
  | .error failure => .error (failed failure #[] "" 0)
  | .ok ready => .ok ready

/-- Carries out a command, its program for at most `fuel` steps. -/
def run (fuel : Nat) (codecs : Codecs) (disk : Disk) (stdin : Array UInt8)
    (argv : List String) : Outcome :=
  match Arguments.parse argv with
  | .error e => e.outcome
  | .ok args =>
    match prepare codecs disk args with
    | .error outcome => outcome
    | .ok ready => ready.outcome ((ready.interpreter (Source.ofBytes stdin)).run fuel ready.code)

end Brainfuck.CommandLine
