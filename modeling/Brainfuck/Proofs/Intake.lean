/-
Input is delivered in order: of everything that is ever run on one
interpreter, the k-th input action makes the k-th read and gets its reply.

An `Intake` is an input action as it happened, by the interpreter it found and
the one it left. The intakes of a run, and of a whole session, are listed in
the order of time, across loops, executions, and executions that were stopped
or left unfinished. What is proved of such a list (`Intake.InOrder`) walks
through it with the source: each intake finds the source just where the one
before left it, so nothing is read between them, and leaves it one read
further. A step adds one intake at the end of the list or none, and lists of
two runs can be put together because the first leaves its source to the
second (`Intake.InOrder.append`).
-/
import Brainfuck.Proofs.Actions

namespace Brainfuck

/-- The source after so many more reads. -/
def Source.skip (n : Nat) (s : Source) : Source :=
  ⟨s.reply, s.reads + n⟩

theorem Source.skip_add (n k : Nat) (s : Source) : s.skip (n + k) = (s.skip n).skip k := by
  simp only [skip, Nat.add_assoc]

theorem Source.skip_succ (n : Nat) (s : Source) : s.skip (n + 1) = s.advance.skip n := by
  simp only [skip, advance]
  congr 1
  omega

/-- What a read makes of an interpreter, by its reply: the first byte of data
goes into the cell under the cursor, and nothing else happens; without data
the tape and the sink stay as they are. The read itself counts in any case. -/
def Interpreter.Receives (i : Interpreter) (reply : Reply) (j : Interpreter) : Prop :=
  match reply with
  | .data (b :: _) => j = { i with source := i.source.advance, tape := i.tape.put b }
  | .data [] | .absent =>
    j.source = i.source.advance ∧ j.tape = i.tape ∧ j.sink = i.sink ∧ j.written = i.written
  | .failure _ => j = { i with source := i.source.advance }

theorem Interpreter.receives_input (i : Interpreter) :
    i.Receives i.source.next (i.perform .input).state := by
  have hstarve (j : Interpreter) :
      j.starve.source = j.source ∧ j.starve.tape = j.tape ∧ j.starve.sink = j.sink ∧
        j.starve.written = j.written := by
    unfold starve
    split
    · exact ⟨rfl, rfl, rfl, rfl⟩
    · exact ⟨rfl, rfl, rfl, rfl⟩
  simp only [perform, input]
  cases i.source.next with
  | data bytes =>
    cases bytes with
    | nil => exact hstarve { i with source := i.source.advance }
    | cons b bs => rfl
  | absent => exact hstarve { i with source := i.source.advance }
  | failure text => rfl

/-! ## Intakes -/

/-- An input action as it happened: the interpreter that it found and the one
that it left. -/
structure Intake where
  before : Interpreter
  after : Interpreter

/-- The input actions follow one another on a source, one read for each of
them and no other read in between. -/
def Intake.InOrder : Source → List Intake → Prop
  | _, [] => True
  | s, x :: xs => x.before.source = s ∧ x.before.Receives s.next x.after ∧ InOrder s.advance xs

namespace Intake.InOrder

variable {s : Source} {xs ys : List Intake}

theorem append (hx : InOrder s xs) (hy : InOrder (s.skip xs.length) ys) : InOrder s (xs ++ ys) := by
  induction xs generalizing s with
  | nil => exact hy
  | cons x xs ih =>
    obtain ⟨hsource, hreceives, hrest⟩ := hx
    refine ⟨hsource, hreceives, ih hrest ?_⟩
    rwa [List.length_cons, Source.skip_succ] at hy

/-- The k-th of the input actions gets the reply to the k-th read. -/
theorem getElem (h : InOrder s xs) {k : Nat} (hk : k < xs.length) :
    xs[k].before.source = s.skip k ∧ xs[k].before.Receives (s.reply (s.reads + k)) xs[k].after := by
  induction xs generalizing s k with
  | nil => exact absurd hk (Nat.not_lt_zero k)
  | cons x xs ih =>
    obtain ⟨hsource, hreceives, hrest⟩ := h
    cases k with
    | zero => exact ⟨hsource, hreceives⟩
    | succ k =>
      have hk' : k < xs.length := Nat.lt_of_succ_lt_succ hk
      obtain ⟨hthere, hgets⟩ := ih hrest hk'
      refine ⟨hthere.trans (Source.skip_succ k s).symm, ?_⟩
      have hread : s.advance.reads + k = s.reads + (k + 1) := by
        simp only [Source.advance]
        omega
      rw [hread] at hgets
      exact hgets

end Intake.InOrder

/-! ## The intakes of a run -/

namespace Machine

/-- The input actions among the first `n` steps, in order. -/
def intakes : Nat → Machine → List Intake
  | 0, _ => []
  | n + 1, m =>
    if (m.runFor n).action? = some .input then
      m.intakes n ++ [⟨(m.runFor n).state, (m.runFor (n + 1)).state⟩]
    else m.intakes n

/-- A step that is no input action does not read. -/
theorem source_runFor_succ {n : Nat} {m : Machine} (h : (m.runFor n).action? ≠ some .input) :
    (m.runFor (n + 1)).state.source = (m.runFor n).state.source := by
  rw [state_runFor_succ]
  cases ha : (m.runFor n).action? with
  | none => rfl
  | some a =>
    have hne : a ≠ .input := fun heq => h (by rw [ha, heq])
    show ((m.runFor n).state.perform a).state.source = _
    rw [Interpreter.source_perform, if_neg hne]

/-- A run reads for its input actions and for nothing else. -/
theorem source_runFor (n : Nat) (m : Machine) :
    (m.runFor n).state.source = m.state.source.skip (m.intakes n).length := by
  induction n with
  | zero => rfl
  | succ n ih =>
    by_cases h : (m.runFor n).action? = some .input
    · rw [intakes, if_pos h, List.length_append, Source.skip_add, ← ih, state_runFor_succ, h]
      exact ((m.runFor n).state.source_perform .input).trans (if_pos rfl)
    · rw [intakes, if_neg h, ← ih]
      exact source_runFor_succ h

theorem inOrder_intakes (n : Nat) (m : Machine) :
    Intake.InOrder m.state.source (m.intakes n) := by
  induction n with
  | zero => trivial
  | succ n ih =>
    by_cases h : (m.runFor n).action? = some .input
    · have hreceives : (m.runFor n).state.Receives (m.runFor n).state.source.next
          (m.runFor (n + 1)).state := by
        rw [state_runFor_succ, h]
        exact (m.runFor n).state.receives_input
      rw [source_runFor] at hreceives
      rw [intakes, if_pos h]
      exact ih.append ⟨m.source_runFor n, hreceives, trivial⟩
    · rwa [intakes, if_neg h]

end Machine

/-! ## The intakes of a session -/

namespace Session

/-- The run that a request starts, if it starts one. -/
def machine? (s : Session) : Request → Option Machine
  | .execute t | .run t => some (s.interpreter.machine (Code.parse t))
  | .rerun => some (s.interpreter.machine s.kept)
  | .runCode code => some (s.interpreter.machine code)
  | .write _ | .move _ => none

/-- The input actions of a session, in order. -/
def intakes (fuel : Nat) (s : Session) : List Request → List Intake
  | [] => []
  | r :: rs =>
    match s.machine? r with
    | some m => m.intakes fuel ++ (s.perform fuel r).2.intakes fuel rs
    | none => (s.perform fuel r).2.intakes fuel rs

/-- A request leaves the source where its run has left it. -/
theorem source_perform (fuel : Nat) (s : Session) (r : Request) :
    (s.perform fuel r).2.interpreter.source =
      match s.machine? r with
      | some m => (m.runFor fuel).state.source
      | none => s.interpreter.source := by
  cases r with
  | execute t => exact Progress.source_close _
  | run t => exact Progress.source_close _
  | rerun => exact Progress.source_close _
  | runCode code => exact Progress.source_close _
  | write v => rfl
  | move n => rfl

theorem source_machine? {s : Session} {r : Request} {m : Machine} (h : s.machine? r = some m) :
    m.state.source = s.interpreter.source := by
  cases r <;> cases h <;> rfl

theorem source_performAll (fuel : Nat) (s : Session) (history : List Request) :
    (s.performAll fuel history).interpreter.source =
      s.interpreter.source.skip (s.intakes fuel history).length := by
  induction history generalizing s with
  | nil => rfl
  | cons r history ih =>
    rw [performAll, ih, source_perform, intakes]
    cases hm : s.machine? r with
    | none => rfl
    | some m =>
      show (m.runFor fuel).state.source.skip _ = _
      rw [Machine.source_runFor, source_machine? hm, List.length_append, Source.skip_add]

theorem inOrder_intakes (fuel : Nat) (s : Session) (history : List Request) :
    Intake.InOrder s.interpreter.source (s.intakes fuel history) := by
  induction history generalizing s with
  | nil => trivial
  | cons r history ih =>
    have hrest := ih (s.perform fuel r).2
    rw [source_perform] at hrest
    rw [intakes]
    cases hm : s.machine? r with
    | none => rwa [hm] at hrest
    | some m =>
      rw [hm] at hrest
      rw [← source_machine? hm]
      exact (m.inOrder_intakes fuel).append (by rwa [← Machine.source_runFor])

/-- **Input is delivered in order.** Take any history of requests on a new
interpreter, whatever became of each of them, and an execution under way after
it, and list all input actions so far. There have been just as many reads. The
k-th input action has found the source after `k` reads and has made one more,
whose reply did all that it did; no step that is no input action has read. Of a
buffer of bytes, as many have been consumed as there were input actions, until
none was left, and the k-th byte has gone into the cell that was under the
cursor at the k-th input action. -/
theorem input_in_order (size : MemorySize) (source : Source) (sink : Sink) (fuel : Nat)
    (history : List Request) (code : Code) (n : Nat) :
    let session := new (.new size source sink)
    let m := (session.performAll fuel history).interpreter.machine code
    let intakes := session.intakes fuel history ++ m.intakes n
    (m.runFor n).state.source = source.skip intakes.length ∧
      (∀ (k : Nat) (hk : k < intakes.length),
        intakes[k].before.source = source.skip k ∧
          intakes[k].before.Receives (source.reply (source.reads + k)) intakes[k].after) ∧
      (∀ (run : Machine) (t : Nat), (run.runFor t).action? ≠ some .input →
        (run.runFor (t + 1)).state.source = (run.runFor t).state.source) ∧
      ∀ bytes : Array UInt8, source = .ofBytes bytes →
        (m.runFor n).state.source.consumed bytes.size = min intakes.length bytes.size ∧
          ∀ (k : Nat) (hk : k < intakes.length) (hb : k < bytes.size),
            intakes[k].after.tape = intakes[k].before.tape.put bytes[k] := by
  intro session m intakes
  have hm : m.state.source = source.skip (session.intakes fuel history).length :=
    source_performAll fuel session history
  have hsource : (m.runFor n).state.source = source.skip intakes.length := by
    rw [Machine.source_runFor, hm, ← Source.skip_add, ← List.length_append]
  have horder : Intake.InOrder source intakes :=
    (session.inOrder_intakes fuel history).append (hm ▸ m.inOrder_intakes n)
  refine ⟨hsource, fun k hk => horder.getElem hk,
    fun run t h => Machine.source_runFor_succ h, ?_⟩
  rintro bytes rfl
  constructor
  · rw [hsource, Source.consumed, Source.skip]
    show min (0 + intakes.length) _ = _
    rw [Nat.zero_add]
  · intro k hk hb
    obtain ⟨-, hreceives⟩ := horder.getElem hk
    have hreply : (Source.ofBytes bytes).reply ((Source.ofBytes bytes).reads + k) =
        .data [bytes[k]] := by
      simp only [Source.ofBytes, Nat.zero_add]
      exact dif_pos hb
    rw [hreply] at hreceives
    rw [hreceives]

/-- Two bytes and three input actions: the first in an execution that a full
sink has stopped, the others in the one after it. -/
theorem input_in_order_after_fault :
    let session := new (.new ⟨2, by decide⟩ (.ofBytes #[5, 7]) (.refusing 0 "full"))
    let history := [Request.execute (.text ",.,"), .move 1]
    let code : Code := .act .next (.act .input (.act .input .nil))
    let m := (session.performAll 9 history).interpreter.machine code
    let intakes := session.intakes 9 history ++ m.intakes 9
    ((session.perform 9 (.execute (.text ",.,"))).1 = .stopped (.sinkFailed "full") ∧
      intakes.length = 3 ∧ (m.runFor 9).state.source.consumed 2 = 2) ∧
      (m.runFor 1).state.source = m.state.source ∧
      ∃ (h₁ : 1 < intakes.length) (h₂ : 2 < intakes.length),
        intakes[1].after.tape = intakes[1].before.tape.put 7 ∧
          intakes[2].before.Receives .absent intakes[2].after := by
  intro session history code m intakes
  have horder := input_in_order ⟨2, by decide⟩ (.ofBytes #[5, 7]) (.refusing 0 "full") 9 history
    code 9
  have hlength : intakes.length = 3 := by decide
  have hbytes := horder.2.2.2 #[5, 7] rfl
  have h₁ : 1 < intakes.length := by omega
  have h₂ : 2 < intakes.length := by omega
  refine ⟨⟨by decide, hlength, ?_⟩, horder.2.2.1 m 0 (by decide), h₁, h₂, ?_⟩
  · refine hbytes.1.trans ?_
    show min intakes.length 2 = 2
    rw [hlength]
    rfl
  · exact ⟨hbytes.2 1 h₁ (by decide), (horder.2.1 2 h₂).2⟩

end Session

end Brainfuck
