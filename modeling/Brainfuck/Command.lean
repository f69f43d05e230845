/-
The eight commands of the language, the symbols that stand for them, and
what a program text says once its comments are gone: every character that
is not one of the eight symbols is a comment.
-/

namespace Brainfuck

/-- A command that acts at once on the tape or on a stream. -/
inductive Action where
  | next
  | previous
  | increment
  | decrement
  | output
  | input
  deriving DecidableEq, Repr

/-- A command: an action, or one of the two brackets around a loop. -/
inductive Command where
  | act (a : Action)
  | openLoop
  | closeLoop
  deriving DecidableEq, Repr

namespace Action

/-- The symbol of an action. -/
def symbol : Action → Char
  | next => '>'
  | previous => '<'
  | increment => '+'
  | decrement => '-'
  | output => '.'
  | input => ','

/-- The name of an action as an instruction of a program. -/
def name : Action → String
  | next => "NextCell"
  | previous => "PreviousCell"
  | increment => "IncrementData"
  | decrement => "DecrementData"
  | output => "OutputData"
  | input => "InputData"

end Action

namespace Command

/-- The commands, in the order in which they are listed. -/
def all : List Command :=
  [.act .next, .act .previous, .act .increment, .act .decrement, .act .output, .act .input,
    .openLoop, .closeLoop]

/-- The symbol of a command. -/
def symbol : Command → Char
  | act a => a.symbol
  | openLoop => '['
  | closeLoop => ']'

/-- The name of a command as a token. -/
def name : Command → String
  | act .next => "NEXT_CELL"
  | act .previous => "PREVIOUS_CELL"
  | act .increment => "INCREMENT_DATA"
  | act .decrement => "DECREMENT_DATA"
  | act .output => "OUTPUT_DATA"
  | act .input => "INPUT_DATA"
  | openLoop => "BEGIN_LOOP"
  | closeLoop => "END_LOOP"

/-- The command a character stands for, if it is one of the eight symbols. -/
def ofSymbol? : Char → Option Command
  | '>' => some (act .next)
  | '<' => some (act .previous)
  | '+' => some (act .increment)
  | '-' => some (act .decrement)
  | '.' => some (act .output)
  | ',' => some (act .input)
  | '[' => some openLoop
  | ']' => some closeLoop
  | _ => none

/-- The command a text stands for: the text must be exactly one symbol. -/
def ofText? (s : String) : Option Command :=
  match s.toList with
  | [c] => ofSymbol? c
  | _ => none

/-- The command of a token name. -/
def ofName? (s : String) : Option Command :=
  all.find? fun c => c.name == s

@[simp] theorem ofSymbol?_symbol (c : Command) : ofSymbol? c.symbol = some c := by
  cases c with
  | act a => cases a <;> rfl
  | openLoop => rfl
  | closeLoop => rfl

theorem symbol_of_ofSymbol? {x : Char} {c : Command} (h : ofSymbol? x = some c) : c.symbol = x := by
  unfold ofSymbol? at h
  split at h <;> first | (cases h; rfl) | cases h

/-- A symbol and its command determine each other. -/
theorem ofSymbol?_eq_some_iff {x : Char} {c : Command} : ofSymbol? x = some c ↔ c.symbol = x :=
  ⟨symbol_of_ofSymbol?, fun h => h ▸ ofSymbol?_symbol c⟩

end Command

/-- A program text: a text read character by character, or a list of texts
each of which stands for one character. -/
inductive ProgramText where
  | text (s : String)
  | pieces (ps : List String)

/-- The commands of a program text in order; all else is comment. -/
def ProgramText.commands : ProgramText → List Command
  | text s => s.toList.filterMap Command.ofSymbol?
  | pieces ps => ps.filterMap Command.ofText?

end Brainfuck
