/-
The normal form of a program text (`ProgramText.normalForm`), and that
parsing keeps exactly it. The normal form is put together from the characters
of the text, with no command in it; parsing reads commands. So the two meet in
the symbols of commands (`ProgramText.toList_normalForm`).

`written` is what the stack of open bodies stands for in the text: every body
written down, outermost first, with the bracket that opened the next one
after it. One command read adds that command to `written`, and ending a loop
at the end of the text adds its closing bracket, so nothing is lost, doubled
or put elsewhere.
-/
import Brainfuck.Proofs.Descent
import Brainfuck.Proofs.Symbols

namespace Brainfuck

namespace Command

/-! ## How many loops are open -/

@[simp] theorem level_nil : level [] = 0 := rfl

@[simp] theorem level_act (a : Action) (cs : List Command) : level (.act a :: cs) = level cs := by
  simp [level]

@[simp] theorem level_openLoop (cs : List Command) : level (.openLoop :: cs) = level cs + 1 := by
  simp [level]; omega

@[simp] theorem level_closeLoop (cs : List Command) : level (.closeLoop :: cs) = level cs - 1 := by
  simp [level]; omega

end Command

/-! ## The normal form -/

/-- The normal form of a program text: its symbols up to the first `]` that has
no loop to close, and a `]` for every loop still open there. -/
def ProgramText.normalForm (t : ProgramText) : String :=
  String.ofList (Symbols.completed t.symbols)

theorem ProgramText.toList_normalForm (t : ProgramText) :
    t.normalForm.toList = (Command.completed t.commands).map Command.symbol := by
  rw [normalForm, String.toList_ofList, symbols_eq, Symbols.completed_map]

namespace Code

/-! ## The stack as text -/

/-- The commands that the open bodies stand for: each body written down, and
the bracket that opened the body inside it. -/
def written (current : Code) : List Code → List Command
  | [] => current.reverse.commands
  | outer :: enclosing => written outer enclosing ++ .openLoop :: current.reverse.commands

theorem written_act (a : Action) (current : Code) (enclosing : List Code) :
    written (act a current) enclosing = written current enclosing ++ [.act a] := by
  cases enclosing <;> simp [written, reverse_act]

/-- A loop that has just been ended is its body, still open, and the bracket. -/
theorem written_loop (current outer : Code) (enclosing : List Code) :
    written (loop current.reverse outer) enclosing =
      written current (outer :: enclosing) ++ [.closeLoop] := by
  cases enclosing <;> simp [written, reverse_loop]

theorem commands_closeAll (current : Code) (enclosing : List Code) :
    (closeAll current enclosing).commands =
      written current enclosing ++ List.replicate enclosing.length .closeLoop := by
  induction enclosing generalizing current with
  | nil => simp [closeAll, written]
  | cons outer enclosing ih =>
    rw [closeAll, ih, written_loop, List.append_assoc, List.length_cons, List.replicate_succ]
    rfl

/-- Reading on from any stack of open bodies: what they stand for, what is
reached of the commands ahead, and a closing bracket for every loop that is
open by then. -/
theorem commands_build (current : Code) (enclosing : List Code) (cs : List Command) :
    (build current enclosing cs).commands =
      written current enclosing ++ Command.reached enclosing.length cs ++
        List.replicate (enclosing.length + Command.level (Command.reached enclosing.length cs)).toNat
          .closeLoop := by
  induction cs generalizing current enclosing with
  | nil => rw [build, commands_closeAll]; simp [Command.reached]
  | cons c cs ih =>
    cases c with
    | act a => rw [build, ih, written_act]; simp [Command.reached]
    | openLoop =>
      rw [build, ih, List.length_cons]
      simp only [Command.reached, Command.level_openLoop, written, reverse_nil, commands_nil,
        List.append_assoc, List.cons_append, List.nil_append]
      congr 4; omega
    | closeLoop =>
      cases enclosing with
      | nil => simp [build, written, Command.reached]
      | cons outer enclosing =>
        rw [build, ih, written_loop, List.length_cons]
        simp only [Command.reached, Command.level_closeLoop, List.append_assoc, List.cons_append,
          List.nil_append]
        congr 4; omega

theorem commands_ofCommands (cs : List Command) :
    (ofCommands cs).commands = Command.completed cs := by
  rw [ofCommands, commands_build, Command.completed]
  simp [written]

/-- **Parsing loses, doubles and moves nothing.** The text of the program of a
program text, whatever its brackets, is the normal form of that text. -/
theorem text_parse (t : ProgramText) : (parse t).text = t.normalForm := by
  rw [text, parse, commands_ofCommands, ← ProgramText.toList_normalForm, String.ofList_toList]

example : (parse (.text "+[-[x>]<")).text = "+[-[>]<]" := by decide

example : (parse (.text "+[-]]>")).text = "+[-]" := by decide

end Code

end Brainfuck
