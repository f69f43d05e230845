/-
The interpreter's state: the tape, the two streams, what the execution under
way keeps count of, and the log. An action changes this state and may fail,
for three reasons only: the sink takes no more, the source fails, or what
stands in the code is no instruction at all.

A failed action leaves the tape as it was. A read that fails has been made
all the same; a write that fails has not.
-/
import Brainfuck.Code.Depth
import Brainfuck.Code.Shown
import Brainfuck.Event
import Brainfuck.Stream
import Brainfuck.Tape

namespace Brainfuck

/-- Why an execution stops before its end. -/
inductive Fault where
  | sinkFailed (text : String)
  | sourceFailed (text : String)
  | unknownInstruction (f : Foreign)
  deriving DecidableEq, Repr

/-- The wording of a fault; that of a failing stream is the stream's own. -/
def Fault.message : Fault → String
  | sinkFailed text | sourceFailed text => text
  | unknownInstruction f => "unknown instruction: " ++ f.shown

/-- An interpreter with everything a program can touch. -/
structure Interpreter where
  tape : Tape
  source : Source
  sink : Sink
  /-- Whether a read of the latest execution found no input. -/
  starved : Bool
  /-- How many bytes the latest execution wrote. -/
  written : Nat
  /-- Everything noted so far, oldest first. -/
  log : List Event

/-- How an action ends. -/
inductive Effect where
  | done (i : Interpreter)
  | fault (f : Fault) (i : Interpreter)

namespace Interpreter

/-- A new interpreter with a blank tape. -/
def new (size : MemorySize) (source : Source) (sink : Sink) : Interpreter :=
  ⟨Tape.blank size, source, sink, false, 0, [.allocated size.cells]⟩

/-- Adds an event to the log. -/
def note (e : Event) (i : Interpreter) : Interpreter :=
  { i with log := i.log ++ [e] }

/-- Writes the cell under the cursor to the sink, if the sink takes it. -/
def output (i : Interpreter) : Effect :=
  if i.sink.accepts then
    .done { i with sink := i.sink.push i.tape.read, written := i.written + 1 }
  else .fault (.sinkFailed i.sink.refusal) i

/-- Leaves the tape alone, as there is no input; the first time in an
execution this is noted. -/
def starve (i : Interpreter) : Interpreter :=
  if i.starved then i else { i.note (.exhausted i.tape.cursor) with starved := true }

/-- Reads one byte into the cell under the cursor, if there is one. -/
def input (i : Interpreter) : Effect :=
  let reply := i.source.next
  let i := { i with source := i.source.advance }
  match reply with
  | .data (b :: _) => .done { i with tape := i.tape.put b }
  | .data [] | .absent => .done i.starve
  | .failure text => .fault (.sourceFailed text) i

/-- Performs an action. -/
def perform : Action → Interpreter → Effect
  | .next, i => .done { i with tape := i.tape.advance }
  | .previous, i => .done { i with tape := i.tape.retreat }
  | .increment, i => .done { i with tape := i.tape.increment }
  | .decrement, i => .done { i with tape := i.tape.decrement }
  | .output, i => i.output
  | .input, i => i.input

/-- The state in which an execution begins: a clear tape, nothing starved,
nothing written, and the execution noted. -/
def start (code : Code) (i : Interpreter) : Interpreter :=
  note (.executing code.length code.nesting)
    { i with tape := i.tape.clear, starved := false, written := 0 }

end Interpreter

end Brainfuck
