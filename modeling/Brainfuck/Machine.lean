/-
The machine that executes code one small step at a time, without recursion.
It keeps a frame for the body being run and one for each loop around it,
innermost first. A frame remembers its whole body, to run it once more, and
what is left of it on this pass. While a loop's body runs, the frame around
it still has that loop in front; it moves past the loop when the body's
frame goes.

A step does one of five things: it performs an action; it skips a loop
because the cell under the cursor is zero; it enters a loop because the cell
is not; at the end of a body it goes back to the start, the cell not being
zero; or it leaves the body. `Machine.runFor` makes a given number of steps
at most, so it always ends; a program that has not ended by then is handed
back as it stands.
-/
import Brainfuck.Interpreter

namespace Brainfuck

/-- A body under way: all of it, and what is left of it on this pass. -/
structure Frame where
  body : Code
  todo : Code
  deriving DecidableEq, Repr

/-- An execution under way. -/
structure Machine where
  frame : Frame
  outer : List Frame
  state : Interpreter

/-- Where an execution stands: it goes on, it has ended by itself, or it has
been stopped by a fault. -/
inductive Progress where
  | running (m : Machine)
  | finished (i : Interpreter)
  | stopped (f : Fault) (i : Interpreter)

namespace Machine

/-- The machine about to run code from its start. -/
def ofCode (code : Code) (i : Interpreter) : Machine :=
  ⟨⟨code, code⟩, [], i⟩

/-- One step. -/
def step : Machine → Progress
  | ⟨⟨body, .act a rest⟩, outer, i⟩ =>
    match i.perform a with
    | .done i => .running ⟨⟨body, rest⟩, outer, i⟩
    | .fault f i => .stopped f i
  | ⟨⟨body, .loop inner rest⟩, outer, i⟩ =>
    if i.tape.read = 0 then .running ⟨⟨body, rest⟩, outer, i⟩
    else .running ⟨⟨inner, inner⟩, ⟨body, .loop inner rest⟩ :: outer, i⟩
  | ⟨⟨_, .foreign f _⟩, _, i⟩ => .stopped (.unknownInstruction f) i
  | ⟨⟨_, .nil⟩, [], i⟩ => .finished i
  | ⟨⟨body, .nil⟩, parent :: outer, i⟩ =>
    if i.tape.read = 0 then .running ⟨⟨parent.body, parent.todo.tail⟩, outer, i⟩
    else .running ⟨⟨body, body⟩, parent :: outer, i⟩

/-- Whether the next step reads input. -/
def awaitsInput (m : Machine) : Bool :=
  match m.frame.todo with
  | .act .input _ => true
  | _ => false

/-- The machine with a reply for the next read. -/
def feed (reply : Reply) (m : Machine) : Machine :=
  { m with state.source := ⟨fun _ => reply, m.state.source.reads⟩ }

/-- At most so many steps. -/
def runFor : Nat → Machine → Progress
  | 0, m => .running m
  | n + 1, m =>
    match m.step with
    | .running m => runFor n m
    | ended => ended

end Machine

end Brainfuck
