/-
What a program can touch, and what can be seen of it afterwards: the tape and
the two streams. An action has its effect on these alone (`World.perform`);
what the interpreter keeps besides, for its log, has no part in it
(`Interpreter.perform_world`).
-/
import Brainfuck.Interpreter

namespace Brainfuck

/-- A tape and two streams. -/
structure World where
  tape : Tape
  source : Source
  sink : Sink

namespace World

/-- The world with a clear tape. -/
def cleared (w : World) : World :=
  { w with tape := w.tape.clear }

/-- What an action does: the fault that stops it, if any, and the world it leaves. -/
def perform : Action → World → Option Fault × World
  | .next, w => (none, { w with tape := w.tape.advance })
  | .previous, w => (none, { w with tape := w.tape.retreat })
  | .increment, w => (none, { w with tape := w.tape.increment })
  | .decrement, w => (none, { w with tape := w.tape.decrement })
  | .output, w =>
    if w.sink.accepts then (none, { w with sink := w.sink.push w.tape.read })
    else (some (.sinkFailed w.sink.refusal), w)
  | .input, w =>
    match w.source.next with
    | .data (b :: _) => (none, { w with source := w.source.advance, tape := w.tape.put b })
    | .data [] | .absent => (none, { w with source := w.source.advance })
    | .failure text => (some (.sourceFailed text), { w with source := w.source.advance })

end World

namespace Interpreter

/-- What a program can touch of an interpreter. -/
def world (i : Interpreter) : World :=
  ⟨i.tape, i.source, i.sink⟩

@[simp] theorem world_tape (i : Interpreter) : i.world.tape = i.tape := rfl

@[simp] theorem world_note (e : Event) (i : Interpreter) : (i.note e).world = i.world := rfl

@[simp] theorem world_starve (i : Interpreter) : i.starve.world = i.world := by
  unfold starve
  split <;> rfl

end Interpreter

/-- The fault of an effect, if any, and the world it leaves. -/
def Effect.world : Effect → Option Fault × World
  | done i => (none, i.world)
  | fault f i => (some f, i.world)

theorem Interpreter.perform_world (a : Action) (i : Interpreter) :
    (i.perform a).world = i.world.perform a := by
  cases a with
  | next | previous | increment | decrement => rfl
  | output =>
    by_cases h : i.sink.accepts
    · simp [perform, output, World.perform, Effect.world, world, h]
    · simp [perform, output, World.perform, Effect.world, world, h]
  | input =>
    simp only [perform, input, World.perform, world]
    cases i.source.next with
    | data bytes =>
      cases bytes with
      | nil => exact congrArg (none, ·) (world_starve _)
      | cons b bs => rfl
    | absent => exact congrArg (none, ·) (world_starve _)
    | failure text => rfl

end Brainfuck
