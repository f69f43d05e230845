/-
The language on a tape without ends: the cells are counted by the integers,
all of them zero at first, and the cursor starts at zero and goes as far as
the program takes it, either way.

Code is run on it by the same frames as on a circular tape, one step at a
time. The positions that a run has visited lie between its leftmost and its
rightmost one (`leftmost_le`, `le_rightmost`), and a cell that it has not
visited is as it was (`cells_runFor`).
-/
import Mathlib.Logic.Function.Basic
import Brainfuck.Machine

namespace Brainfuck

/-- A tape without ends, and the position of its cursor. -/
structure EndlessTape where
  cells : Int → UInt8
  position : Int

namespace EndlessTape

/-- The tape of zeros. -/
def blank : EndlessTape :=
  ⟨fun _ => 0, 0⟩

/-- The cell under the cursor. -/
def read (t : EndlessTape) : UInt8 :=
  t.cells t.position

/-- Puts a byte into the cell under the cursor. -/
def put (b : UInt8) (t : EndlessTape) : EndlessTape :=
  { t with cells := Function.update t.cells t.position b }

/-- Moves the cursor. -/
def move (d : Int) (t : EndlessTape) : EndlessTape :=
  { t with position := t.position + d }

theorem cells_put (b : UInt8) (t : EndlessTape) (p : Int) :
    (t.put b).cells p = if p = t.position then b else t.cells p :=
  Function.update_apply t.cells t.position b p

end EndlessTape

/-- A tape without ends and two streams. -/
structure EndlessWorld where
  tape : EndlessTape
  source : Source
  sink : Sink

/-- What an action does: the fault that stops it, if any, and the world it leaves. -/
def EndlessWorld.perform : Action → EndlessWorld → Option Fault × EndlessWorld
  | .next, w => (none, { w with tape := w.tape.move 1 })
  | .previous, w => (none, { w with tape := w.tape.move (-1) })
  | .increment, w => (none, { w with tape := w.tape.put (w.tape.read + 1) })
  | .decrement, w => (none, { w with tape := w.tape.put (w.tape.read - 1) })
  | .output, w =>
    if w.sink.accepts then (none, { w with sink := w.sink.push w.tape.read })
    else (some (.sinkFailed w.sink.refusal), w)
  | .input, w =>
    match w.source.next with
    | .data (b :: _) => (none, { w with source := w.source.advance, tape := w.tape.put b })
    | .data [] | .absent => (none, { w with source := w.source.advance })
    | .failure text => (some (.sourceFailed text), { w with source := w.source.advance })

/-- An execution under way on a tape without ends. -/
structure EndlessMachine where
  frame : Frame
  outer : List Frame
  world : EndlessWorld

/-- Where an execution on a tape without ends stands. -/
inductive EndlessProgress where
  | running (m : EndlessMachine)
  | finished (w : EndlessWorld)
  | stopped (f : Fault) (w : EndlessWorld)

/-- The world, wherever an execution stands. -/
def EndlessProgress.world : EndlessProgress → EndlessWorld
  | running m => m.world
  | finished w => w
  | stopped _ w => w

namespace EndlessMachine

/-- The machine about to run code on a tape of zeros. -/
def ofCode (code : Code) (source : Source) (sink : Sink) : EndlessMachine :=
  ⟨⟨code, code⟩, [], ⟨.blank, source, sink⟩⟩

/-- One step. -/
def step : EndlessMachine → EndlessProgress
  | ⟨⟨body, .act a rest⟩, outer, w⟩ =>
    match w.perform a with
    | (none, w) => .running ⟨⟨body, rest⟩, outer, w⟩
    | (some f, w) => .stopped f w
  | ⟨⟨body, .loop inner rest⟩, outer, w⟩ =>
    if w.tape.read = 0 then .running ⟨⟨body, rest⟩, outer, w⟩
    else .running ⟨⟨inner, inner⟩, ⟨body, .loop inner rest⟩ :: outer, w⟩
  | ⟨⟨_, .foreign f _⟩, _, w⟩ => .stopped (.unknownInstruction f) w
  | ⟨⟨_, .nil⟩, [], w⟩ => .finished w
  | ⟨⟨body, .nil⟩, parent :: outer, w⟩ =>
    if w.tape.read = 0 then .running ⟨⟨parent.body, parent.todo.tail⟩, outer, w⟩
    else .running ⟨⟨body, body⟩, parent :: outer, w⟩

/-- At most so many steps. -/
def runFor : Nat → EndlessMachine → EndlessProgress
  | 0, m => .running m
  | n + 1, m =>
    match m.step with
    | .running m => runFor n m
    | ended => ended

end EndlessMachine

/-- Where an execution stands after so many steps more. -/
def EndlessProgress.further (n : Nat) : EndlessProgress → EndlessProgress
  | running m => m.runFor n
  | q => q

namespace EndlessMachine

/-! ## The positions of a run -/

/-- The position of the cursor after so many steps. -/
def position (m : EndlessMachine) (n : Nat) : Int :=
  (m.runFor n).world.tape.position

/-- The cursor has been at a position at some time up to step `n`. -/
def Visits (m : EndlessMachine) (n : Nat) (p : Int) : Prop :=
  ∃ s, s ≤ n ∧ m.position s = p

/-- The leftmost position up to step `n`. -/
def leftmost (m : EndlessMachine) : Nat → Int
  | 0 => m.position 0
  | n + 1 => min (m.leftmost n) (m.position (n + 1))

/-- The rightmost position up to step `n`. -/
def rightmost (m : EndlessMachine) : Nat → Int
  | 0 => m.position 0
  | n + 1 => max (m.rightmost n) (m.position (n + 1))

theorem leftmost_le {m : EndlessMachine} {n s : Nat} (h : s ≤ n) : m.leftmost n ≤ m.position s := by
  induction n with
  | zero =>
    rw [Nat.le_zero.mp h]
    exact Int.le_refl _
  | succ n ih =>
    rcases Nat.le_succ_iff.mp h with hs | rfl
    · exact Int.le_trans (Int.min_le_left _ _) (ih hs)
    · exact Int.min_le_right _ _

theorem le_rightmost {m : EndlessMachine} {n s : Nat} (h : s ≤ n) :
    m.position s ≤ m.rightmost n := by
  induction n with
  | zero =>
    rw [Nat.le_zero.mp h]
    exact Int.le_refl _
  | succ n ih =>
    rcases Nat.le_succ_iff.mp h with hs | rfl
    · exact Int.le_trans (ih hs) (Int.le_max_left _ _)
    · exact Int.le_max_right _ _

/-! ## What a run leaves alone -/

theorem runFor_succ (n : Nat) (m : EndlessMachine) : m.runFor (n + 1) = m.step.further n := by
  rw [runFor]
  cases m.step <;> rfl

theorem position_succ {m m' : EndlessMachine} (h : m.step = .running m') (n : Nat) :
    m.position (n + 1) = m'.position n := by
  rw [position, runFor_succ, h]
  rfl

theorem cells_perform (a : Action) (w : EndlessWorld) {p : Int} (h : w.tape.position ≠ p) :
    (w.perform a).2.tape.cells p = w.tape.cells p := by
  have hput (b : UInt8) : (w.tape.put b).cells p = w.tape.cells p := by
    rw [EndlessTape.cells_put, if_neg (Ne.symm h)]
  cases a with
  | next | previous => rfl
  | increment | decrement => exact hput _
  | output => simp only [EndlessWorld.perform]; split <;> rfl
  | input =>
    simp only [EndlessWorld.perform]
    split
    · exact hput _
    all_goals rfl

/-- Only the cell under the cursor can change in a step. -/
theorem cells_step (m : EndlessMachine) {p : Int} (h : m.world.tape.position ≠ p) :
    m.step.world.tape.cells p = m.world.tape.cells p := by
  obtain ⟨⟨body, todo⟩, outer, w⟩ := m
  cases todo with
  | nil =>
    cases outer with
    | nil => rfl
    | cons parent outer => simp only [step]; split <;> rfl
  | act a rest =>
    have hcells := cells_perform a w h
    simp only [step]
    split
    next w' hw => rw [hw] at hcells; exact hcells
    next f w' hw => rw [hw] at hcells; exact hcells
  | loop inner rest => simp only [step]; split <;> rfl
  | foreign f rest => rfl

/-- A cell that a run does not visit is as it was. -/
theorem cells_runFor (n : Nat) (m : EndlessMachine) {p : Int}
    (h : ∀ s, s ≤ n → m.position s ≠ p) :
    (m.runFor n).world.tape.cells p = m.world.tape.cells p := by
  induction n generalizing m with
  | zero => rfl
  | succ n ih =>
    have hstep := m.cells_step (h 0 (Nat.zero_le _))
    rw [runFor_succ]
    cases hm : m.step with
    | running m' =>
      rw [hm] at hstep
      have hrest : ∀ s, s ≤ n → m'.position s ≠ p := fun s hs =>
        position_succ hm s ▸ h (s + 1) (Nat.succ_le_succ hs)
      exact (ih m' hrest).trans hstep
    | finished w => rw [hm] at hstep; exact hstep
    | stopped f w => rw [hm] at hstep; exact hstep

end EndlessMachine

end Brainfuck
