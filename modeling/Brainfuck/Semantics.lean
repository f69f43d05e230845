/-
What code means, by recursion on its structure and without a machine: its
instructions take effect one after another, and a loop is its body again and
again, as long as the cell under the cursor is not zero when a pass begins.
What is no instruction stops the run when it is reached, and not before.

`Runs k i r` says that running `k` from the state `i` comes to the result
`r`. A run that never ends has no result.
-/
import Brainfuck.Interpreter

namespace Brainfuck

/-- What a run comes to. -/
inductive Result where
  | finished (i : Interpreter)
  | stopped (f : Fault) (i : Interpreter)

/-- The result of running code from a state. -/
inductive Runs : Code → Interpreter → Result → Prop where
  | nil {i : Interpreter} : Runs .nil i (.finished i)
  | act {a : Action} {k : Code} {i j : Interpreter} {r : Result} :
    i.perform a = .done j → Runs k j r → Runs (.act a k) i r
  | actStopped {a : Action} {k : Code} {i j : Interpreter} {f : Fault} :
    i.perform a = .fault f j → Runs (.act a k) i (.stopped f j)
  | skip {b k : Code} {i : Interpreter} {r : Result} :
    i.tape.read = 0 → Runs k i r → Runs (.loop b k) i r
  | pass {b k : Code} {i j : Interpreter} {r : Result} :
    i.tape.read ≠ 0 → Runs b i (.finished j) → Runs (.loop b k) j r → Runs (.loop b k) i r
  | passStopped {b k : Code} {i j : Interpreter} {f : Fault} :
    i.tape.read ≠ 0 → Runs b i (.stopped f j) → Runs (.loop b k) i (.stopped f j)
  | foreign {f : Foreign} {k : Code} {i : Interpreter} :
    Runs (.foreign f k) i (.stopped (.unknownInstruction f) i)

end Brainfuck
