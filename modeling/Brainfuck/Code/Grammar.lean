/-
What the brackets of a command sequence mean, said twice and independently of
the stack of open bodies that `Code.ofCommands` keeps.

`Code.descend` is the grammar by recursive descent: a body ends with the
bracket that closes it, or with the commands, and an opening bracket has a
body of its own. `completed` is the normal form of a command sequence: what
comes before the first closing bracket that has no loop to close, followed
by a closing bracket for every loop still open there.
-/
import Brainfuck.Code.Brackets

namespace Brainfuck

namespace Code

/-- Reads one body, and gives what is left after it: the commands behind the
bracket that closes it, or none. -/
def descend (cs : List Command) : { r : Code × List Command // r.2.length ≤ cs.length } :=
  match cs with
  | [] => ⟨(nil, []), Nat.le_refl _⟩
  | .closeLoop :: cs => ⟨(nil, cs), Nat.le_succ _⟩
  | .act a :: cs =>
    let ⟨(k, rest), h⟩ := descend cs
    ⟨(act a k, rest), Nat.le_succ_of_le h⟩
  | .openLoop :: cs =>
    let ⟨(b, behind), hb⟩ := descend cs
    let ⟨(k, rest), hk⟩ := descend behind
    ⟨(loop b k, rest), Nat.le_succ_of_le (Nat.le_trans hk hb)⟩
termination_by cs.length
decreasing_by
  all_goals simp only [List.length_cons]
  · omega
  · omega
  · simp only at hb; omega

/-- The program by recursive descent. A closing bracket at the top level ends
it, and what is behind that bracket does not matter. -/
def ofGrammar (cs : List Command) : Code :=
  (descend cs).1.1

end Code

/-! ## Normal form -/

namespace Command

/-- How many loops are open after some commands: opening brackets less closing
brackets. -/
def level (cs : List Command) : Int :=
  (cs.count .openLoop : Int) - cs.count .closeLoop

/-- The commands before the first closing bracket that has no loop to close,
when `opened` loops are open already. -/
def reached (opened : Nat) : List Command → List Command
  | [] => []
  | .act a :: cs => .act a :: reached opened cs
  | .openLoop :: cs => .openLoop :: reached (opened + 1) cs
  | .closeLoop :: cs =>
    match opened with
    | 0 => []
    | opened + 1 => .closeLoop :: reached opened cs

/-- The normal form of a command sequence. -/
def completed (cs : List Command) : List Command :=
  reached 0 cs ++ List.replicate (level (reached 0 cs)).toNat .closeLoop

/-- Every closing bracket has a loop to close, and no loop is left open. -/
def Balanced (cs : List Command) : Prop :=
  reached 0 cs = cs ∧ level cs = 0

instance (cs : List Command) : Decidable (Balanced cs) :=
  inferInstanceAs (Decidable (reached 0 cs = cs ∧ level cs = 0))

end Command

end Brainfuck
