/-
Executions: code run from a clear tape until it ends, is stopped by a fault,
or has used up the steps it is allowed. Whatever the ending, the interpreter
is left as it stands then, and may be used again: a `Session` is one
interpreter through any number of executions and manual changes of its tape.
-/
import Brainfuck.Code.Brackets
import Brainfuck.Machine

namespace Brainfuck

/-- How an execution ends; `unfinished` is one that ran out of steps. -/
inductive Ending where
  | finished
  | stopped (f : Fault)
  | unfinished
  deriving DecidableEq, Repr

/-- The ending of an execution and the interpreter it leaves. Only an
execution that ends by itself is noted as finished. -/
def Progress.close : Progress → Ending × Interpreter
  | finished i => (.finished, i.note (.finished i.written))
  | stopped f i => (.stopped f, i)
  | running m => (.unfinished, m.state)

namespace Interpreter

/-- The machine that runs code from a clear tape. -/
def machine (code : Code) (i : Interpreter) : Machine :=
  Machine.ofCode code (i.start code)

/-- Runs code from a clear tape for at most `fuel` steps. -/
def run (fuel : Nat) (code : Code) (i : Interpreter) : Ending × Interpreter :=
  ((i.machine code).runFor fuel).close

/-- Runs the program of a text. -/
def execute (fuel : Nat) (t : ProgramText) (i : Interpreter) : Ending × Interpreter :=
  i.run fuel (Code.parse t)

end Interpreter

/-! ## Sessions -/

/-- Something done with an interpreter. -/
inductive Request where
  /-- Execute a program text. -/
  | execute (t : ProgramText)
  /-- Run the program of a text and keep it. -/
  | run (t : ProgramText)
  /-- Run the kept program again. -/
  | rerun
  /-- Run code as it is given. -/
  | runCode (code : Code)
  /-- Write to the cell under the cursor. -/
  | write (v : Int)
  /-- Move the cursor. -/
  | move (n : Int)

/-- An interpreter in use, and the program kept for running again. -/
structure Session where
  interpreter : Interpreter
  kept : Code

namespace Session

/-- A session with a new interpreter; the program kept at first is empty. -/
def new (i : Interpreter) : Session := ⟨i, .nil⟩

/-- Runs code in a session. -/
def runCode (fuel : Nat) (code : Code) (s : Session) : Ending × Session :=
  let (ending, i) := s.interpreter.run fuel code
  (ending, { s with interpreter := i })

/-- Does what is asked for, executions for at most `fuel` steps. -/
def perform (fuel : Nat) (s : Session) : Request → Ending × Session
  | .execute t => s.runCode fuel (Code.parse t)
  | .run t => { s with kept := Code.parse t }.runCode fuel (Code.parse t)
  | .rerun => s.runCode fuel s.kept
  | .runCode code => s.runCode fuel code
  | .write v => (.finished, { s with interpreter.tape := s.interpreter.tape.write v })
  | .move n => (.finished, { s with interpreter.tape := s.interpreter.tape.move n })

/-- The session after any number of requests, whatever became of each. -/
def performAll (fuel : Nat) (s : Session) : List Request → Session
  | [] => s
  | r :: rs => (s.perform fuel r).2.performAll fuel rs

end Session

end Brainfuck
