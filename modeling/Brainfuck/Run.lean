/-
Running programs: from a text, from a file, or from a file against streams of
the caller. What can go wrong before a program runs is a `Failure`. Two kinds
of it, a wrong setting and an unreadable program file, are meant for the user
and have a hint (`Failure.isReport`); the others are handed on as they are.

A file is opened before its encoding is looked up, and it is always opened
through the plain form of its path, while an error shows the path as given.
Bytes that are no text in the encoding make the file unreadable; a codec that
fails in another way does not.
-/
import Brainfuck.Encoding
import Brainfuck.Execution
import Brainfuck.File.Tree
import Brainfuck.Options

namespace Brainfuck

/-- Why there is no result. -/
inductive Failure where
  | config (e : ConfigError)
  | source (e : SourceError)
  | unknownEncoding (name : String)
  | codecFailed (kind text : String)
  | nullInPath
  | nullInEncoding
  | fault (f : Fault)
  | unfinished

namespace Failure

/-- Whether a failure is meant for the user. -/
def isReport : Failure → Bool
  | config _ | source _ => true
  | _ => false

/-- The wording of a failure. -/
def message : Failure → String
  | config e => e.message
  | source e => e.message
  | unknownEncoding name => "unknown encoding: " ++ name
  | codecFailed _ text => text
  | nullInPath => "embedded null byte"
  | nullInEncoding => "embedded null character"
  | fault f => f.message
  | unfinished => "out of steps"

/-- The hint that goes with a failure. -/
def hint? : Failure → Option Hint
  | config e => e.hint?
  | source e => e.hint?
  | _ => none

end Failure

/-- Whether a text holds the character NUL, which names cannot. -/
def holdsNull (s : String) : Bool :=
  s.toList.contains '\x00'

/-- Reads the program text in a file. -/
def readSource (codecs : Codecs) (disk : Disk) (path encoding : String) :
    Except Failure String :=
  if holdsNull encoding then .error .nullInEncoding
  else if holdsNull path then .error .nullInPath
  else
    match disk (Path.plain path) with
    | .error cause => .error (.source ⟨path, cause⟩)
    | .ok file =>
      match codecs.decoding? encoding file with
      | none => .error (.unknownEncoding encoding)
      | some (.text text) => .ok text
      | some (.undecodable d) => .error (.source ⟨path, .other d.message⟩)
      | some (.failed kind text) => .error (.codecFailed kind text)

/-- Reads the program in a file. -/
def loadProgram (codecs : Codecs) (disk : Disk) (path encoding : String) : Except Failure Code :=
  match readSource codecs disk path encoding with
  | .ok text => .ok (Code.parse (.text text))
  | .error failure => .error failure

/-- The failure that an ending is, unless all went well. -/
def Ending.failure? : Ending → Option Failure
  | .finished => none
  | .stopped f => some (.fault f)
  | .unfinished => some .unfinished

/-- What running a program leaves behind. -/
structure RunResult where
  output : Array UInt8
  program : Code
  deriving DecidableEq, Repr

/-- Runs the program of a text on a buffer of input. -/
def runText (fuel : Nat) (t : ProgramText) (input : Array UInt8) (options : Options) :
    Except Failure RunResult :=
  let code := Code.parse t
  let i := Interpreter.new options.memorySize (Source.ofBytes input) (Sink.empty none)
  let (ending, i) := i.run fuel code
  match ending.failure? with
  | none => .ok ⟨i.sink.held, code⟩
  | some failure => .error failure

/-- Runs the program in a file on a buffer of input. -/
def runFile (fuel : Nat) (codecs : Codecs) (disk : Disk) (path : String) (input : Array UInt8)
    (options : Options) : Except Failure RunResult :=
  match readSource codecs disk path options.encoding with
  | .ok text => runText fuel (.text text) input options
  | .error failure => .error failure

/-- A run against streams of the caller: the streams as they are left, and the
program or the failure. -/
structure StreamRun where
  source : Source
  sink : Sink
  result : Except Failure Code

/-- Runs the program in a file against streams of the caller. -/
def runStreams (fuel : Nat) (codecs : Codecs) (disk : Disk) (path : String) (source : Source)
    (sink : Sink) (options : Options) : StreamRun :=
  match loadProgram codecs disk path options.encoding with
  | .error failure => ⟨source, sink, .error failure⟩
  | .ok code =>
    let (ending, i) := (Interpreter.new options.memorySize source sink).run fuel code
    match ending.failure? with
    | none => ⟨i.source, i.sink, .ok code⟩
    | some failure => ⟨i.source, i.sink, .error failure⟩

end Brainfuck
