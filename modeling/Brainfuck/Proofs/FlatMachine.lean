/-
The classical machine for the language: a program is a flat sequence of
commands, a counter says which one is next, and a bracket is a jump. At an
opening bracket, with zero in the cell, the counter goes past the closing
bracket that matches; at a closing bracket, with anything else in the cell,
it goes back to just behind the opening bracket that matches. The matching
bracket is found by scanning, forwards or backwards, and counting the
brackets in between.

There is no tree here and no stack. The lemmas say what a step does at a
command whose surroundings are known: what stands between two brackets that
match is a program written down (`Code.commands`), for the scan leaves those
as it finds them (`pastClose_commands`, `sinceOpen_commands`).
-/
import Brainfuck.Code
import Brainfuck.Proofs.World

namespace Brainfuck

/-- A flat program with a counter into it, and the world it runs in. -/
structure FlatMachine where
  text : List Command
  pc : Nat
  world : World

/-- Where a flat program stands: it goes on, it has ended by itself, or it has
been stopped by a fault. -/
inductive FlatProgress where
  | running (c : FlatMachine)
  | finished (w : World)
  | stopped (f : Fault) (w : World)

namespace FlatMachine

/-- How many commands there are up to the closing bracket that matches, with
that bracket, when `depth` brackets have been opened in between. -/
def pastClose : Nat → List Command → Nat
  | _, [] => 0
  | depth, .act _ :: cs => pastClose depth cs + 1
  | depth, .openLoop :: cs => pastClose (depth + 1) cs + 1
  | 0, .closeLoop :: _ => 1
  | depth + 1, .closeLoop :: cs => pastClose depth cs + 1

/-- How many commands there are, going back, before the opening bracket that
matches, when `depth` brackets have been closed in between. -/
def sinceOpen : Nat → List Command → Nat
  | _, [] => 0
  | depth, .act _ :: cs => sinceOpen depth cs + 1
  | depth, .closeLoop :: cs => sinceOpen (depth + 1) cs + 1
  | 0, .openLoop :: _ => 0
  | depth + 1, .openLoop :: cs => sinceOpen depth cs + 1

/-- One step. -/
def step (c : FlatMachine) : FlatProgress :=
  match c.text[c.pc]? with
  | none => .finished c.world
  | some (.act a) =>
    match c.world.perform a with
    | (none, w) => .running ⟨c.text, c.pc + 1, w⟩
    | (some f, w) => .stopped f w
  | some .openLoop =>
    if c.world.tape.read = 0 then
      .running ⟨c.text, c.pc + 1 + pastClose 0 (c.text.drop (c.pc + 1)), c.world⟩
    else .running ⟨c.text, c.pc + 1, c.world⟩
  | some .closeLoop =>
    if c.world.tape.read = 0 then .running ⟨c.text, c.pc + 1, c.world⟩
    else .running ⟨c.text, c.pc - sinceOpen 0 (c.text.take c.pc).reverse, c.world⟩

/-- At most so many steps. -/
def runFor : Nat → FlatMachine → FlatProgress
  | 0, c => .running c
  | n + 1, c =>
    match c.step with
    | .running c => runFor n c
    | ended => ended

/-! ## Scanning for a bracket -/

/-- A program written down has no bracket that is matched outside it. -/
theorem pastClose_commands (k : Code) (depth : Nat) (cs : List Command) :
    pastClose depth (k.commands ++ cs) = k.commands.length + pastClose depth cs := by
  induction k generalizing depth cs with
  | nil => simp
  | act a k ih =>
    simp only [Code.commands_act, List.cons_append, pastClose, ih, List.length_cons]
    omega
  | loop b k ihb ih =>
    simp only [Code.commands_loop, List.cons_append, List.append_assoc, pastClose, ihb, ih,
      List.length_cons, List.length_append]
    omega
  | foreign f k ih => rw [Code.commands_foreign, ih]

theorem sinceOpen_commands (k : Code) (depth : Nat) (cs : List Command) :
    sinceOpen depth (k.commands.reverse ++ cs) = k.commands.length + sinceOpen depth cs := by
  induction k generalizing depth cs with
  | nil => simp
  | act a k ih =>
    simp only [Code.commands_act, List.reverse_cons, List.append_assoc, List.cons_append,
      List.nil_append, ih, sinceOpen, List.length_cons]
    omega
  | loop b k ihb ih =>
    simp only [Code.commands_loop, List.reverse_cons, List.reverse_append, List.append_assoc,
      List.cons_append, List.nil_append, ih, sinceOpen, ihb, List.length_cons, List.length_append]
    omega
  | foreign f k ih => rw [Code.commands_foreign, ih]

/-! ## Single steps -/

theorem step_end (text : List Command) (w : World) :
    step ⟨text, text.length, w⟩ = .finished w := by
  simp [step]

theorem step_act (before after : List Command) (a : Action) (w : World) :
    step ⟨before ++ .act a :: after, before.length, w⟩ =
      match w.perform a with
      | (none, w) => .running ⟨before ++ .act a :: after, before.length + 1, w⟩
      | (some f, w) => .stopped f w := by
  simp [step]

theorem step_openLoop (before after : List Command) (b : Code) (w : World) :
    step ⟨before ++ .openLoop :: (b.commands ++ .closeLoop :: after), before.length, w⟩ =
      .running ⟨before ++ .openLoop :: (b.commands ++ .closeLoop :: after),
        if w.tape.read = 0 then before.length + 1 + (b.commands.length + 1) else before.length + 1,
        w⟩ := by
  have hat : (before ++ .openLoop :: (b.commands ++ .closeLoop :: after))[before.length]? =
      some .openLoop := by simp
  have hpast : pastClose 0 ((before ++ .openLoop :: (b.commands ++ .closeLoop :: after)).drop
      (before.length + 1)) = b.commands.length + 1 := by
    rw [List.append_cons, List.drop_left' (by simp), pastClose_commands, pastClose]
  simp only [step, hat, hpast]
  split <;> rfl

theorem step_closeLoop (before after : List Command) (b : Code) (w : World) :
    step ⟨before ++ .openLoop :: (b.commands ++ .closeLoop :: after),
        before.length + 1 + b.commands.length, w⟩ =
      .running ⟨before ++ .openLoop :: (b.commands ++ .closeLoop :: after),
        if w.tape.read = 0 then before.length + 1 + (b.commands.length + 1) else before.length + 1,
        w⟩ := by
  -- The text up to the bracket, as it is scanned backwards.
  have htext : before ++ .openLoop :: (b.commands ++ .closeLoop :: after) =
      (before ++ .openLoop :: b.commands) ++ .closeLoop :: after := by simp
  have hlen : (before ++ .openLoop :: b.commands).length = before.length + 1 + b.commands.length := by
    simp; omega
  have hat : (before ++ .openLoop :: (b.commands ++ .closeLoop :: after))[
      before.length + 1 + b.commands.length]? = some .closeLoop := by
    rw [htext, ← hlen]; simp
  have hsince : sinceOpen 0 ((before ++ .openLoop :: (b.commands ++ .closeLoop :: after)).take
      (before.length + 1 + b.commands.length)).reverse = b.commands.length := by
    rw [htext, ← hlen, List.take_left]
    simp [sinceOpen_commands, sinceOpen]
  simp only [step, hat, hsince]
  split
  · rfl
  · rw [Nat.add_sub_cancel]

end FlatMachine

end Brainfuck
