/-
A program text means what the classical machine does with its normal form.

The machine with frames and the classical machine go in lock step. A stack of
frames says how much of the program's text is still ahead
(`Machine.textAhead`): what is left of the innermost body, and after each
body its closing bracket and what stands behind that loop in the body around
it. Counted from the end of the text that is the position of the counter
(`Machine.flatten`), and one step leads to the same position on both sides:
skipping a loop is jumping past its bracket, entering it is walking in, and at
the end of a body the closing bracket is passed or is the jump back. That the
frames form a path is what places each body between its own brackets.
-/
import Brainfuck.Execution
import Brainfuck.Proofs.FlatMachine
import Brainfuck.Proofs.Frames
import Brainfuck.Proofs.NormalForm

namespace Brainfuck

/-! ## The text ahead -/

/-- The text behind a body with these frames around it. -/
def Frame.textBehind : List Frame → List Command
  | [] => []
  | parent :: outer => .closeLoop :: (parent.todo.tail.commands ++ textBehind outer)

/-- The text that a machine has ahead of it. -/
def Machine.textAhead (m : Machine) : List Command :=
  m.frame.todo.commands ++ Frame.textBehind m.outer

/-- What a frame on a path has ahead is an end of the whole text. -/
theorem Path.text_eq {code : Code} {frame : Frame} {outer : List Frame}
    (h : Path code frame outer) :
    ∃ before, code.commands = before ++ (frame.todo.commands ++ Frame.textBehind outer) := by
  induction h with
  | @top done todo hb =>
    exact ⟨done.commands, by rw [hb, Code.commands_append, Frame.textBehind, List.append_nil]⟩
  | @inside body inner rest done todo outer _ hb ih =>
    obtain ⟨before, hbefore⟩ := ih
    refine ⟨before ++ .openLoop :: done.commands, ?_⟩
    rw [hbefore, hb]
    simp [Frame.textBehind, Code.tail]

/-! ## One step -/

/-- The classical machine on a text, at the position where so much of it is
ahead as a machine with frames has ahead. -/
def Machine.flatten (text : List Command) (m : Machine) : FlatMachine :=
  ⟨text, text.length - m.textAhead.length, m.state.world⟩

def Progress.flatten (text : List Command) : Progress → FlatProgress
  | running m => .running (m.flatten text)
  | finished i => .finished i.world
  | stopped f i => .stopped f i.world

theorem Machine.flatten_eq {text before : List Command} {m : Machine}
    (h : text = before ++ m.textAhead) : m.flatten text = ⟨text, before.length, m.state.world⟩ := by
  rw [flatten, h, List.length_append, Nat.add_sub_cancel]

theorem Machine.step_flatten_act {code rest body : Code} {a : Action} {outer : List Frame}
    {i : Interpreter} (hp : Path code ⟨body, .act a rest⟩ outer) :
    (flatten code.commands ⟨⟨body, .act a rest⟩, outer, i⟩).step =
      match i.world.perform a with
      | (none, w) => .running ⟨code.commands, (flatten code.commands ⟨⟨body, rest⟩, outer, i⟩).pc, w⟩
      | (some f, w) => .stopped f w := by
  obtain ⟨before, hb⟩ := hp.text_eq
  have hb' : code.commands = (before ++ [.act a]) ++ (rest.commands ++ Frame.textBehind outer) := by
    rw [hb]; simp
  have hlen : (before ++ [Command.act a]).length = before.length + 1 := by simp
  rw [flatten_eq hb, flatten_eq hb', hlen, hb, Code.commands_act, List.cons_append]
  exact FlatMachine.step_act before _ a i.world

section Loop

variable {code body inner rest : Code} {outer : List Frame} {before : List Command}

theorem Path.loop_text_eq (h : Path code ⟨body, .loop inner rest⟩ outer) :
    ∃ before, code.commands = before ++ .openLoop ::
      (inner.commands ++ .closeLoop :: (rest.commands ++ Frame.textBehind outer)) := by
  obtain ⟨before, hb⟩ := h.text_eq
  exact ⟨before, by rw [hb]; simp⟩

variable (h : code.commands = before ++ .openLoop ::
  (inner.commands ++ .closeLoop :: (rest.commands ++ Frame.textBehind outer)))
include h

theorem Machine.flatten_loop (i : Interpreter) :
    flatten code.commands ⟨⟨body, .loop inner rest⟩, outer, i⟩ =
      ⟨code.commands, before.length, i.world⟩ :=
  flatten_eq (by rw [h]; simp [textAhead])

theorem Machine.flatten_behind (i : Interpreter) :
    flatten code.commands ⟨⟨body, rest⟩, outer, i⟩ =
      ⟨code.commands, before.length + 1 + (inner.commands.length + 1), i.world⟩ := by
  have hb : code.commands = (before ++ .openLoop :: (inner.commands ++ [.closeLoop])) ++
      (rest.commands ++ Frame.textBehind outer) := by rw [h]; simp
  rw [flatten_eq hb]
  congr 1
  simp; omega

theorem Machine.flatten_start (i : Interpreter) :
    flatten code.commands ⟨⟨inner, inner⟩, ⟨body, .loop inner rest⟩ :: outer, i⟩ =
      ⟨code.commands, before.length + 1, i.world⟩ := by
  have hb : code.commands = (before ++ [.openLoop]) ++ (inner.commands ++
      Frame.textBehind (⟨body, .loop inner rest⟩ :: outer)) := by
    rw [h]; simp [Frame.textBehind, Code.tail]
  rw [flatten_eq hb]
  simp

theorem Machine.flatten_end (i : Interpreter) :
    flatten code.commands ⟨⟨inner, .nil⟩, ⟨body, .loop inner rest⟩ :: outer, i⟩ =
      ⟨code.commands, before.length + 1 + inner.commands.length, i.world⟩ := by
  have hb : code.commands = (before ++ .openLoop :: inner.commands) ++ (Code.nil.commands ++
      Frame.textBehind (⟨body, .loop inner rest⟩ :: outer)) := by
    rw [h]; simp [Frame.textBehind, Code.tail]
  rw [flatten_eq hb]
  congr 1
  simp; omega

end Loop

theorem Machine.step_flatten_of_moves {code : Code} {m m' : Machine}
    (hp : Path code m.frame m.outer) (hm : m.Moves m') :
    (m.flatten code.commands).step = .running (m'.flatten code.commands) := by
  cases hm with
  | @act a body rest outer i j ha =>
    have hw : i.world.perform a = (none, j.world) := by
      rw [← Interpreter.perform_world, ha]; rfl
    rw [step_flatten_act hp, hw]
    rfl
  | @skip body inner rest outer i hz =>
    obtain ⟨before, h⟩ := hp.loop_text_eq
    rw [flatten_loop h, flatten_behind h]
    rw [h, FlatMachine.step_openLoop, Interpreter.world_tape, if_pos hz]
  | @enter body inner rest outer i hz =>
    obtain ⟨before, h⟩ := hp.loop_text_eq
    rw [flatten_loop h, flatten_start h]
    rw [h, FlatMachine.step_openLoop, Interpreter.world_tape, if_neg hz]
  | @again body parent outer i hz =>
    cases hp with
    | inside hp _ =>
      obtain ⟨before, h⟩ := hp.loop_text_eq
      rw [flatten_end h, flatten_start h]
      rw [h, FlatMachine.step_closeLoop, Interpreter.world_tape, if_neg hz]
  | @leave body parent outer i hz =>
    cases hp with
    | inside hp _ =>
      obtain ⟨before, h⟩ := hp.loop_text_eq
      rw [flatten_end h]
      refine Eq.trans ?_ (congrArg FlatProgress.running (flatten_behind h i).symm)
      rw [h, FlatMachine.step_closeLoop, Interpreter.world_tape, if_pos hz]

theorem Machine.step_flatten_of_halts {code : Code} {m : Machine} {r : Result}
    (hp : Path code m.frame m.outer) (hk : m.frame.todo.Proper) (hr : m.Halts r) :
    (m.flatten code.commands).step = r.progress.flatten code.commands := by
  cases hr with
  | @finish body i =>
    have hend : flatten code.commands ⟨⟨body, .nil⟩, [], i⟩ =
        ⟨code.commands, code.commands.length, i.world⟩ :=
      flatten_eq (by simp [textAhead, Frame.textBehind])
    rw [hend, FlatMachine.step_end]
    rfl
  | @fault a body rest outer i j f hf =>
    have hw : i.world.perform a = (some f, j.world) := by
      rw [← Interpreter.perform_world, hf]; rfl
    rw [step_flatten_act hp, hw]
    rfl
  | foreign => exact hk.elim

/-! ## Whole runs -/

theorem FlatMachine.runFor_succ (n : Nat) (c : FlatMachine) :
    c.runFor (n + 1) = match c.step with
      | .running c => c.runFor n
      | ended => ended := rfl

/-- In lock step: after any number of steps both machines stand at the same
position, or have come to the same end. -/
theorem Machine.runFor_flatten {code : Code} (hk : code.Proper) (n : Nat) {m : Machine}
    (hp : Path code m.frame m.outer) :
    (m.flatten code.commands).runFor n = (m.runFor n).flatten code.commands := by
  induction n generalizing m with
  | zero => rfl
  | succ n ih =>
    rw [FlatMachine.runFor_succ]
    rcases m.moves_or_halts with ⟨m', hm⟩ | ⟨r, hr⟩
    · rw [step_flatten_of_moves hp hm, hm.runFor_succ]
      exact ih (hp.of_moves hm)
    · rw [step_flatten_of_halts hp (hp.proper hk) hr, hr.runFor_succ]
      cases r <;> rfl

/-- The classical machine about to run the normal form of a program text from
a clear tape. -/
def FlatMachine.ofText (t : ProgramText) (w : World) : FlatMachine :=
  ⟨Command.completed t.commands, 0, w.cleared⟩

theorem Interpreter.flatten_machine (t : ProgramText) (i : Interpreter) :
    (i.machine (Code.parse t)).flatten (Code.parse t).commands = FlatMachine.ofText t i.world := by
  have htext : (Code.parse t).commands = Command.completed t.commands :=
    Code.commands_ofCommands t.commands
  have hahead : (i.machine (Code.parse t)).textAhead = (Code.parse t).commands := by
    rw [Machine.textAhead]; exact List.append_nil _
  rw [Machine.flatten, hahead, Nat.sub_self, htext]
  rfl

/-- Executing a text, step for step, is running its normal form flat. -/
theorem Interpreter.runFor_ofText (t : ProgramText) (i : Interpreter) (n : Nat) :
    (FlatMachine.ofText t i.world).runFor n =
      ((i.machine (Code.parse t)).runFor n).flatten (Code.parse t).commands := by
  rw [← flatten_machine]
  exact Machine.runFor_flatten (Code.proper_ofCommands t.commands) n (Path.start _)

/-- **Executing a text is running its normal form on the classical machine.**
The flat program is the normal form, symbol for symbol. For every program
text, interpreter and streams, one finishes exactly when the other does, and
one is stopped by a fault exactly when the other is, both leaving the same
tape and the same streams; and one runs for ever exactly when the other does. -/
theorem Interpreter.execute_iff_flat (t : ProgramText) (i : Interpreter) :
    (FlatMachine.ofText t i.world).text.map Command.symbol = t.normalForm.toList ∧
    (∀ w, (∃ n j, i.execute n t = (.finished, j) ∧ j.world = w) ↔
      ∃ n, (FlatMachine.ofText t i.world).runFor n = .finished w) ∧
    (∀ f w, (∃ n j, i.execute n t = (.stopped f, j) ∧ j.world = w) ↔
      ∃ n, (FlatMachine.ofText t i.world).runFor n = .stopped f w) ∧
    ((∀ n, (i.execute n t).1 = .unfinished) ↔
      ∀ n, ∃ c, (FlatMachine.ofText t i.world).runFor n = .running c) := by
  refine ⟨t.toList_normalForm.symm, ?_⟩
  simp only [runFor_ofText, execute, run]
  refine ⟨fun w => exists_congr fun n => ?_, fun f w => exists_congr fun n => ?_,
    forall_congr' fun n => ?_⟩
  all_goals
    cases (i.machine (Code.parse t)).runFor n <;>
      simp [Progress.close, Progress.flatten, and_assoc]

end Brainfuck
