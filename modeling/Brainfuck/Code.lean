/-
Code: a finite sequence of instructions, where an instruction is an action
or a loop around code of its own. The sequence is built into the type
(`act a k` is the action `a` followed by the code `k`), so recursion over a
whole program, loop bodies included, is plain structural recursion.

A caller may also put things into code that are no instructions at all
(`foreign`); they are carried along and refused only when they are reached.
`Code.Proper` says that there are none, at any depth.
-/
import Brainfuck.Command

namespace Brainfuck

/-- Something that is no instruction: a text, or a command that was never
turned into one. -/
inductive Foreign where
  | text (s : String)
  | command (c : Command)
  deriving DecidableEq, Repr

/-- A sequence of instructions, first instruction outermost. -/
inductive Code where
  | nil
  | act (a : Action) (rest : Code)
  | loop (body rest : Code)
  | foreign (f : Foreign) (rest : Code)
  deriving DecidableEq, Repr

instance : Inhabited Code := ⟨.nil⟩

namespace Code

/-- How many instructions stand at the top level; a loop counts as one. -/
def length : Code → Nat
  | nil => 0
  | act _ k => k.length + 1
  | loop _ k => k.length + 1
  | foreign _ k => k.length + 1

/-- The code without its first instruction. -/
def tail : Code → Code
  | nil => nil
  | act _ k => k
  | loop _ k => k
  | foreign _ k => k

/-- One sequence after the other. -/
def append : Code → Code → Code
  | nil, l => l
  | act a k, l => act a (k.append l)
  | loop b k, l => loop b (k.append l)
  | foreign f k, l => foreign f (k.append l)

instance : Append Code := ⟨append⟩

/-- The instructions of the first sequence, last one first, in front of the
second. Loop bodies keep their order. -/
def reverseOnto : Code → Code → Code
  | nil, l => l
  | act a k, l => k.reverseOnto (act a l)
  | loop b k, l => k.reverseOnto (loop b l)
  | foreign f k, l => k.reverseOnto (foreign f l)

/-- The instructions last one first. -/
def reverse (k : Code) : Code :=
  k.reverseOnto nil

/-- Only actions and loops occur, at every depth. -/
def Proper : Code → Prop
  | nil => True
  | act _ k => k.Proper
  | loop b k => b.Proper ∧ k.Proper
  | foreign _ _ => False

/-- The commands that write a program down, a loop as its body between
brackets, with more commands after them. What is no instruction has no
command. -/
def commandsOnto : Code → List Command → List Command
  | nil, cs => cs
  | act a k, cs => .act a :: k.commandsOnto cs
  | loop b k, cs => .openLoop :: b.commandsOnto (.closeLoop :: k.commandsOnto cs)
  | foreign _ k, cs => k.commandsOnto cs

/-- The commands that write a program down. -/
def commands (k : Code) : List Command :=
  k.commandsOnto []

/-- The text of a program: the symbols of its commands. -/
def text (k : Code) : String :=
  String.ofList (k.commands.map Command.symbol)

/-! ## Sequences -/

@[simp] theorem nil_append (l : Code) : nil ++ l = l := rfl

@[simp] theorem act_append (a : Action) (k l : Code) : act a k ++ l = act a (k ++ l) := rfl

@[simp] theorem loop_append (b k l : Code) : loop b k ++ l = loop b (k ++ l) := rfl

@[simp] theorem foreign_append (f : Foreign) (k l : Code) :
    foreign f k ++ l = foreign f (k ++ l) := rfl

@[simp] theorem append_nil (k : Code) : k ++ nil = k := by
  induction k <;> simp_all

theorem append_assoc (k l m : Code) : k ++ l ++ m = k ++ (l ++ m) := by
  induction k <;> simp_all

theorem reverseOnto_append (k l m : Code) : k.reverseOnto l ++ m = k.reverseOnto (l ++ m) := by
  induction k generalizing l <;> simp_all [reverseOnto]

theorem reverseOnto_eq (k l : Code) : k.reverseOnto l = k.reverse ++ l := by
  rw [reverse, reverseOnto_append]; rfl

@[simp] theorem length_append (k l : Code) : (k ++ l).length = k.length + l.length := by
  induction k <;> simp_all [length] <;> omega

/-! ## Writing down -/

theorem commandsOnto_append (k : Code) (cs ds : List Command) :
    k.commandsOnto (cs ++ ds) = k.commandsOnto cs ++ ds := by
  induction k generalizing cs with
  | nil => rfl
  | act a k ih => simp [commandsOnto, ih]
  | loop b k ihb ih => simp [commandsOnto, ih, ← ihb]
  | foreign f k ih => simp [commandsOnto, ih]

theorem commandsOnto_eq (k : Code) (cs : List Command) : k.commandsOnto cs = k.commands ++ cs :=
  commandsOnto_append k [] cs

@[simp] theorem commands_nil : nil.commands = [] := rfl

@[simp] theorem commands_act (a : Action) (k : Code) :
    (act a k).commands = .act a :: k.commands := rfl

@[simp] theorem commands_loop (b k : Code) :
    (loop b k).commands = .openLoop :: (b.commands ++ .closeLoop :: k.commands) := by
  show Command.openLoop :: b.commandsOnto (.closeLoop :: k.commandsOnto []) = _
  rw [commandsOnto_eq]; rfl

@[simp] theorem commands_foreign (f : Foreign) (k : Code) :
    (foreign f k).commands = k.commands := rfl

@[simp] theorem commands_append (k l : Code) : (k ++ l).commands = k.commands ++ l.commands := by
  induction k <;> simp_all

end Code

end Brainfuck
