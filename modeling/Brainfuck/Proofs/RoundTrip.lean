/-
A program is read back from its text: whatever tree of actions and loops is
written down, parsing the text gives that tree (`Code.parse_text`). So the
text of a program says everything about it, and two program texts stand for
the same program exactly when they have the same normal form.

Halfway through the text of a loop the reader is not where it was at the
start: it has bodies open, and more commands ahead. What is proved by
induction on the program is therefore about any bodies open and any commands
ahead: reading a program that was written down puts its instructions on the
innermost body, and nothing else changes (`Code.build_commands`). For a loop
this is used twice, for its body inside the bodies that were open, and for
what is behind it with the finished loop as the newest instruction.
-/
import Brainfuck.Proofs.NormalForm

namespace Brainfuck

/-! ## Commands and their symbols -/

/-- Commands are read back from their symbols. -/
theorem ProgramText.commands_symbols (cs : List Command) :
    (text (String.ofList (cs.map Command.symbol))).commands = cs := by
  rw [commands, String.toList_ofList, List.filterMap_map]
  have hid : Command.ofSymbol? ∘ Command.symbol = some := by
    funext c
    exact Command.ofSymbol?_symbol c
  rw [hid, List.filterMap_some]

theorem ProgramText.commands_append (s t : String) :
    (text (s ++ t)).commands = (text s).commands ++ (text t).commands := by
  simp only [commands, String.toList_append, List.filterMap_append]

theorem ProgramText.commands_append_pieces (ps qs : List String) :
    (pieces (ps ++ qs)).commands = (pieces ps).commands ++ (pieces qs).commands :=
  List.filterMap_append

theorem ProgramText.normalForm_eq_iff (s t : ProgramText) :
    s.normalForm = t.normalForm ↔ Command.completed s.commands = Command.completed t.commands := by
  constructor
  · intro h
    refine Command.map_symbol_injective ?_
    rw [← toList_normalForm, ← toList_normalForm, h]
  · intro h
    rw [← String.toList_inj, toList_normalForm, toList_normalForm, h]

namespace Code

/-! ## Reading what was written -/

theorem reverseOnto_reverseOnto (k l m : Code) :
    (k.reverseOnto l).reverseOnto m = l.reverseOnto (k ++ m) := by
  induction k generalizing l with
  | nil => rfl
  | act a k ih => exact ih (act a l)
  | loop b k _ ih => exact ih (loop b l)
  | foreign f k ih => exact ih (foreign f l)

@[simp] theorem reverse_reverse (k : Code) : k.reverse.reverse = k := by
  rw [reverse, reverse, reverseOnto_reverseOnto, append_nil]
  rfl

/-- With any bodies open and any commands ahead: a program that was written
down is put, instruction by instruction, on the innermost body. -/
theorem build_commands {k : Code} (hk : k.Proper) (current : Code) (enclosing : List Code)
    (cs : List Command) :
    build current enclosing (k.commands ++ cs) = build (k.reverseOnto current) enclosing cs := by
  induction k generalizing current enclosing cs with
  | nil => rfl
  | act a k ih =>
    rw [commands_act, List.cons_append, build, ih hk]
    rfl
  | loop b k ihb ih =>
    obtain ⟨hb, hk⟩ := hk
    -- The body is read as the innermost one; its bracket makes it the newest instruction
    -- of `current`, which keeps its instructions last one first while the loop does not.
    calc build current enclosing ((loop b k).commands ++ cs)
      _ = build nil (current :: enclosing) (b.commands ++ .closeLoop :: (k.commands ++ cs)) := by
        rw [commands_loop, List.cons_append, List.append_assoc, List.cons_append, build]
      _ = build b.reverse (current :: enclosing) (.closeLoop :: (k.commands ++ cs)) :=
        ihb hb nil (current :: enclosing) _
      _ = build (loop b current) enclosing (k.commands ++ cs) := by rw [build, reverse_reverse]
      _ = build ((loop b k).reverseOnto current) enclosing cs := ih hk (loop b current) enclosing cs
  | foreign f k => exact hk.elim

/-- A program is read back from its commands. -/
theorem ofCommands_commands {k : Code} (hk : k.Proper) : ofCommands k.commands = k := by
  have hread := build_commands hk nil [] []
  rw [List.append_nil] at hread
  calc ofCommands k.commands
    _ = build (k.reverseOnto nil) [] [] := hread
    _ = k.reverse.reverse := rfl
    _ = k := reverse_reverse k

/-- A program is read back from its text. -/
theorem parse_text {k : Code} (hk : k.Proper) : parse (.text k.text) = k := by
  rw [parse, text, ProgramText.commands_symbols, ofCommands_commands hk]

theorem text_injective {k l : Code} (hk : k.Proper) (hl : l.Proper) (h : k.text = l.text) :
    k = l := by
  rw [← parse_text hk, h, parse_text hl]

/-! ## When two texts are the same program -/

theorem commands_injective {k l : Code} (hk : k.Proper) (hl : l.Proper)
    (h : k.commands = l.commands) : k = l := by
  rw [← ofCommands_commands hk, h, ofCommands_commands hl]

theorem parse_eq_parse_iff (s t : ProgramText) :
    parse s = parse t ↔ s.normalForm = t.normalForm := by
  rw [ProgramText.normalForm_eq_iff, ← commands_ofCommands, ← commands_ofCommands]
  constructor
  · exact congrArg commands
  · exact commands_injective (proper_ofCommands s.commands) (proper_ofCommands t.commands)

/-- **The text of a program determines it.** Every program made of actions and
loops is what its own text is parsed to, so no two of them have the same text;
and two program texts, whatever their brackets, are parsed to the same program
exactly when they have the same normal form. -/
theorem text_determines_code :
    (∀ k : Code, k.Proper → parse (.text k.text) = k) ∧
      (∀ k l : Code, k.Proper → l.Proper → k.text = l.text → k = l) ∧
      ∀ s t : ProgramText, parse s = parse t ↔ s.normalForm = t.normalForm :=
  ⟨fun _ => parse_text, fun _ _ => text_injective, parse_eq_parse_iff⟩

/-- An empty loop in a loop, and something behind both; and the same program
from a text in which it is hard to see. -/
theorem text_determines_nested :
    (loop (loop nil (act .output nil)) (act .increment nil)).Proper ∧
      parse (.text "[[].]+") = loop (loop nil (act .output nil)) (act .increment nil) ∧
      (parse (.text "[[x].]+]-")).Proper ∧
      parse (.text "[[x].]+]-") = loop (loop nil (act .output nil)) (act .increment nil) := by
  have hnested : (loop (loop nil (act .output nil)) (act .increment nil)).Proper :=
    ⟨⟨trivial, trivial⟩, trivial⟩
  have htext : (loop (loop nil (act .output nil)) (act .increment nil)).text = "[[].]+" := by
    decide
  have hread : (parse (.text "[[x].]+]-")).Proper := proper_ofCommands _
  refine ⟨hnested, ?_, hread, ?_⟩
  · rw [← htext]
    exact text_determines_code.1 _ hnested
  · exact text_determines_code.2.1 _ _ hread hnested (by decide)

end Code

end Brainfuck
