/-
Executions on one interpreter do not see each other.

Two facts together say so. What an execution starts from is a clear tape and
nothing starved or written, so of the interpreter it is given it keeps the
size of the tape, the two streams and the log (`Interpreter.machine_eq`); and
it adds to the log without ever looking at it, so it runs alike with any
other log (`Interpreter.run_eq`). Nothing that can be asked of a session
changes the size of the tape (`Session.size_performAll`) or attaches it to
other streams (`Session.attachedTo_performAll`), and so a program runs on an
interpreter in use as it does on a new one of that size, attached to the
streams as they are now.
-/
import Brainfuck.Proofs.Lockstep

namespace Brainfuck

namespace Interpreter

/-- A new interpreter that has noted nothing yet. -/
def silent (size : MemorySize) (source : Source) (sink : Sink) : Interpreter :=
  ⟨Tape.blank size, source, sink, false, 0, []⟩

/-! ## Where an execution starts -/

theorem machine_eq {size : MemorySize} {i : Interpreter} (h : i.tape.size = size.cells)
    (code : Code) :
    i.machine code =
      ((silent size i.source i.sink).machine code).map (Change.logged i.log).apply := by
  -- A new tape is clear as it is, so clearing makes the two tapes one.
  have hblank : (Tape.blank size).clear = Tape.blank size :=
    Tape.clear_eq_blank (Tape.size_blank size)
  simp only [machine, Machine.ofCode, start, note, silent, hblank, Tape.clear_eq_blank h,
    List.nil_append]
  rfl

/-- Of the interpreter it is given, an execution keeps the size of the tape,
the streams and the log. -/
theorem run_eq {size : MemorySize} {i : Interpreter} (h : i.tape.size = size.cells) (n : Nat)
    (code : Code) :
    i.run n code =
      (((silent size i.source i.sink).run n code).1,
        (Change.logged i.log).apply ((silent size i.source i.sink).run n code).2) := by
  rw [run, machine_eq h, Change.close_runFor_logged]
  rfl

theorem size_run (n : Nat) (code : Code) (i : Interpreter) :
    (i.run n code).2.tape.size = i.tape.size := by
  rw [run, Progress.tape_close, Machine.size_runFor]
  exact i.tape.size_clear

theorem AttachedTo.run {source : Source} {sink : Sink} {i : Interpreter}
    (h : i.AttachedTo source sink) (n : Nat) (code : Code) :
    (i.run n code).2.AttachedTo source sink := by
  have hstart : (i.machine code).state.AttachedTo source sink := h.of_same rfl rfl
  have hend := Machine.attachedTo_runFor hstart n
  exact hend.of_same (Progress.source_close _) (Progress.sink_close _)

end Interpreter

namespace Session

/-! ## Sessions -/

/-- What every run and every manual change of the tape keeps, every session keeps. -/
theorem performAll_keeps {P : Interpreter → Prop} (hrun : ∀ n code i, P i → P (i.run n code).2)
    (hwrite : ∀ v i, P i → P { i with tape := i.tape.write v })
    (hmove : ∀ n i, P i → P { i with tape := i.tape.move n }) {s : Session} (h : P s.interpreter)
    (fuel : Nat) (history : List Request) : P (s.performAll fuel history).interpreter := by
  induction history generalizing s with
  | nil => exact h
  | cons r history ih =>
    refine ih ?_
    cases r with
    | execute t => exact hrun fuel (Code.parse t) _ h
    | run t => exact hrun fuel (Code.parse t) _ h
    | rerun => exact hrun fuel s.kept _ h
    | runCode code => exact hrun fuel code _ h
    | write v => exact hwrite v _ h
    | move n => exact hmove n _ h

theorem size_performAll (fuel : Nat) (s : Session) (history : List Request) :
    (s.performAll fuel history).interpreter.tape.size = s.interpreter.tape.size :=
  performAll_keeps (P := fun i => i.tape.size = s.interpreter.tape.size)
    (fun n code i h => (i.size_run n code).trans h) (fun v i h => (i.tape.size_write v).trans h)
    (fun n i h => (i.tape.size_move n).trans h) rfl fuel history

theorem attachedTo_performAll {source : Source} {sink : Sink} {s : Session}
    (h : s.interpreter.AttachedTo source sink) (fuel : Nat) (history : List Request) :
    (s.performAll fuel history).interpreter.AttachedTo source sink :=
  performAll_keeps (fun n code _ h => h.run n code) (fun _ _ h => h.of_same rfl rfl)
    (fun _ _ h => h.of_same rfl rfl) h fuel history

/-- **Executions are isolated from each other.** After any history of
requests, whatever became of each of them, the tape has the size it was made
with; and running a program for any number of steps ends as it does on a new
interpreter of that size that is attached to the same streams, notes the same
lines, and leaves the same interpreter but for the lines noted before. -/
theorem run_isolated (size : MemorySize) (source : Source) (sink : Sink) (fuel : Nat)
    (history : List Request) (n : Nat) (code : Code) :
    let used := ((new (.new size source sink)).performAll fuel history).interpreter
    let fresh := Interpreter.new size used.source used.sink
    used.tape.size = size.cells ∧
      (used.run n code).1 = (fresh.run n code).1 ∧
      ∃ lines, (fresh.run n code).2.log = fresh.log ++ lines ∧
        (used.run n code).2 = { (fresh.run n code).2 with log := used.log ++ lines } := by
  intro used fresh
  have hused : used.tape.size = size.cells :=
    (size_performAll fuel _ history).trans (Tape.size_blank size)
  have hfresh : fresh.tape.size = size.cells := Tape.size_blank size
  refine ⟨hused, ?_, ((Interpreter.silent size used.source used.sink).run n code).2.log, ?_, ?_⟩
  · rw [Interpreter.run_eq hused, Interpreter.run_eq hfresh]; rfl
  · rw [Interpreter.run_eq hfresh]; rfl
  · rw [Interpreter.run_eq hused, Interpreter.run_eq hfresh]; rfl

end Session

end Brainfuck
