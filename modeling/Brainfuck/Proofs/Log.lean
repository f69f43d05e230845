/-
The log tells the truth about every execution.

Two things that an interpreter keeps for its log have to agree with what really
happened. Whether a read of this execution has found nothing is known by a
flag, and the line about it is noted only while the flag is down; so along a
run the flag says whether one of the intakes was dry, and the line is that of
the first (`Machine.log_runFor`). And the bytes written are counted one by
one, a write that fails not being one; so the count is the size of what the
sink has got since the start (`Machine.written_runFor`).

Both start anew with each execution, whatever has been left of the one before,
which is why the interpreter may have been through any session.
-/
import Brainfuck.Proofs.Intake

namespace Brainfuck

/-- Whether a reply comes without data. -/
def Reply.isEmpty : Reply → Bool
  | .data [] | .absent => true
  | .data (_ :: _) | .failure _ => false

/-- Whether an input action got no data. -/
def Intake.isDry (x : Intake) : Bool :=
  x.before.source.next.isEmpty

/-- What is noted about input actions: the cell of the first that got no data,
if there is one. -/
def Intake.warning (xs : List Intake) : List Event :=
  ((xs.find? isDry).map fun x => Event.exhausted x.before.tape.cursor).toList

theorem Intake.warning_concat (xs : List Intake) (x : Intake) :
    warning (xs ++ [x]) =
      warning xs ++
        if xs.any isDry = false ∧ x.isDry = true then [.exhausted x.before.tape.cursor]
        else [] := by
  rw [warning, warning, List.find?_append, List.find?_singleton]
  cases hfind : xs.find? isDry with
  | some y =>
    have hany : xs.any isDry = true :=
      List.any_eq_true.mpr ⟨y, List.mem_of_find?_eq_some hfind, List.find?_some hfind⟩
    simp [hany]
  | none =>
    have hany : xs.any isDry = false := by
      rw [List.any_eq_false]
      exact List.find?_eq_none.mp hfind
    by_cases hx : x.isDry = true
    · simp [hany, hx]
    · simp [hx]

/-! ## One action -/

namespace Interpreter

/-- A read without data is noted the first time. -/
theorem log_input (i : Interpreter) :
    (i.perform .input).state.log =
        i.log ++
          (if i.starved = false ∧ i.source.next.isEmpty = true then [.exhausted i.tape.cursor]
          else []) ∧
      (i.perform .input).state.starved = (i.starved || i.source.next.isEmpty) := by
  have hstarve (j : Interpreter) :
      j.starve.log = j.log ++ (if j.starved = false then [.exhausted j.tape.cursor] else []) ∧
        j.starve.starved = true := by
    unfold starve
    cases hj : j.starved with
    | true => simp [hj]
    | false => simp [note]
  have hdry := hstarve { i with source := i.source.advance }
  simp only [perform, input]
  cases i.source.next with
  | data bytes =>
    cases bytes with
    | nil => simpa [Reply.isEmpty, Effect.state] using hdry
    | cons b bs => simp [Reply.isEmpty, Effect.state]
  | absent => simpa [Reply.isEmpty, Effect.state] using hdry
  | failure text => simp [Reply.isEmpty, Effect.state]

theorem log_perform_of_ne {a : Action} (h : a ≠ .input) (i : Interpreter) :
    (i.perform a).state.log = i.log ∧ (i.perform a).state.starved = i.starved := by
  cases a with
  | next | previous | increment | decrement => exact ⟨rfl, rfl⟩
  | output =>
    simp only [perform, output]
    split <;> exact ⟨rfl, rfl⟩
  | input => exact absurd rfl h

theorem written_perform (a : Action) (i : Interpreter) :
    (i.perform a).state.written =
      if a = .output ∧ i.sink.accepts = true then i.written + 1 else i.written := by
  have hstarve (j : Interpreter) : j.starve.written = j.written := by
    unfold starve
    split <;> rfl
  cases a with
  | next | previous | increment | decrement => rfl
  | output =>
    simp only [perform, output]
    split <;> simp_all [Effect.state]
  | input =>
    simp only [perform, input]
    cases i.source.next with
    | data bytes =>
      cases bytes with
      | nil => exact hstarve _
      | cons b bs => rfl
    | absent => exact hstarve _
    | failure text => rfl

end Interpreter

/-! ## A whole run -/

namespace Machine

/-- Along a run, the log and the flag tell of the first dry intake. -/
theorem log_runFor {m : Machine} (hm : m.state.starved = false) (n : Nat) :
    (m.runFor n).state.log = m.state.log ++ Intake.warning (m.intakes n) ∧
      (m.runFor n).state.starved = (m.intakes n).any Intake.isDry := by
  induction n with
  | zero => exact ⟨(List.append_nil _).symm, hm⟩
  | succ n ih =>
    obtain ⟨hlog, hstarved⟩ := ih
    by_cases h : (m.runFor n).action? = some .input
    · obtain ⟨hlog', hstarved'⟩ := (m.runFor n).state.log_input
      have hstate : (m.runFor (n + 1)).state = ((m.runFor n).state.perform .input).state := by
        rw [state_runFor_succ, h]
      rw [intakes, if_pos h, Intake.warning_concat, List.any_append, hstate, hlog', hstarved', hlog,
        hstarved, List.append_assoc]
      simp [Intake.isDry]
    · have hsame : (m.runFor (n + 1)).state.log = (m.runFor n).state.log ∧
          (m.runFor (n + 1)).state.starved = (m.runFor n).state.starved := by
        rw [state_runFor_succ]
        cases ha : (m.runFor n).action? with
        | none => exact ⟨rfl, rfl⟩
        | some a => exact Interpreter.log_perform_of_ne (fun hin => h (by rw [ha, hin])) _
      rw [intakes, if_neg h, hsame.1, hsame.2]
      exact ⟨hlog, hstarved⟩

/-- Along a run, the count of bytes written is the size of what the sink has got. -/
theorem written_runFor {m : Machine} (hm : m.state.written = 0) (n : Nat) :
    ∃ bytes : Array UInt8, (m.runFor n).state.sink.held = m.state.sink.held ++ bytes ∧
      (m.runFor n).state.written = bytes.size := by
  refine state_runFor (P := fun i => ∃ bytes : Array UInt8,
    i.sink.held = m.state.sink.held ++ bytes ∧ i.written = bytes.size) ?_ ⟨#[], by simp [hm]⟩ n
  rintro a i ⟨bytes, hheld, hwritten⟩
  rw [i.sink_perform, i.written_perform]
  split
  · refine ⟨bytes.push i.tape.read, ?_, by rw [hwritten, Array.size_push]⟩
    rw [Array.append_push, ← hheld]
    rfl
  · exact ⟨bytes, hheld, hwritten⟩

end Machine

namespace Interpreter

/-- The log of an execution, whatever the interpreter has been used for. -/
theorem log_run (n : Nat) (code : Code) (i : Interpreter) :
    ∃ bytes : Array UInt8, (i.run n code).2.sink.held = i.sink.held ++ bytes ∧
      (i.run n code).2.log =
        i.log ++ .executing code.length code.depth ::
          (Intake.warning ((i.machine code).intakes n) ++
            if (i.run n code).1 = .finished then [.finished bytes.size] else []) := by
  obtain ⟨hlog, -⟩ := Machine.log_runFor (m := i.machine code) rfl n
  obtain ⟨bytes, hheld, hwritten⟩ := Machine.written_runFor (m := i.machine code) rfl n
  have hstart : (i.machine code).state.log = i.log ++ [.executing code.length code.depth] := by
    rw [← Code.nesting_eq_depth]
    rfl
  rw [hstart, List.append_assoc, List.singleton_append] at hlog
  refine ⟨bytes, ?_, ?_⟩
  · rw [← show (i.machine code).state.sink = i.sink from rfl, ← hheld, run]
    cases (i.machine code).runFor n <;> rfl
  · rw [run]
    cases hrun : (i.machine code).runFor n with
    | running m =>
      rw [hrun] at hlog
      exact hlog.trans (by simp [Progress.close])
    | finished j =>
      rw [hrun] at hlog hwritten
      simp only [Progress.state] at hlog hwritten
      simp [Progress.close, note, hlog, hwritten]
    | stopped f j =>
      rw [hrun] at hlog
      exact hlog.trans (by simp [Progress.close])

end Interpreter

/-- **The log tells the truth about every execution.** Take any history of
requests on a new interpreter, whatever became of each of them, and an
execution after it, however far it has come. The lines that it adds to the log
are these and no others: first how many instructions the code has and how deep
its loops are nested; then, if an input action of this execution got no data,
where the cursor was at the first of these; and last, if the execution has
ended by itself, how many bytes it has added to what the sink holds. -/
theorem Session.log_of_execution (size : MemorySize) (source : Source) (sink : Sink) (fuel : Nat)
    (history : List Request) (n : Nat) (code : Code) :
    let i := ((new (.new size source sink)).performAll fuel history).interpreter
    ∃ bytes : Array UInt8, (i.run n code).2.sink.held = i.sink.held ++ bytes ∧
      ∃ lines, (i.run n code).2.log = i.log ++ lines ∧
        lines = .executing code.length code.depth ::
          (Intake.warning ((i.machine code).intakes n) ++
            if (i.run n code).1 = .finished then [.finished bytes.size] else []) := by
  intro i
  obtain ⟨bytes, hheld, hlog⟩ := i.log_run n code
  exact ⟨bytes, hheld, _, hlog, rfl⟩

end Brainfuck
