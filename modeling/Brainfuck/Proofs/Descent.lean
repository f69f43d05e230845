/-
`Code.build`, which keeps the bodies that are still open on a stack, finds
the program that `Code.descend` finds by recursive descent.

What carries the proof: the stack is what the recursion has yet to return
to. Whatever has been collected so far, `build` goes on as if the rest of the
innermost body had been read by `descend`; if there is a body around it, the
finished loop is put there and the commands behind it are read into that
(`build_eq_descend`). Commands that run out and a bracket that closes are the
same case, for what is behind the end is no command at all.
-/
import Brainfuck.Code.Grammar

namespace Brainfuck

namespace Code

/-! ## The newest instruction is the last one -/

theorem reverse_act (a : Action) (k : Code) : (act a k).reverse = k.reverse ++ act a nil := by
  rw [reverse, reverseOnto, reverseOnto_eq]

theorem reverse_loop (b k : Code) : (loop b k).reverse = k.reverse ++ loop b nil := by
  rw [reverse, reverseOnto, reverseOnto_eq]

@[simp] theorem reverse_nil : nil.reverse = nil := rfl

/-! ## What `descend` reads, command by command -/

@[simp] theorem descend_nil : (descend []).1 = (nil, []) := by
  rw [descend]

@[simp] theorem descend_closeLoop (cs : List Command) :
    (descend (.closeLoop :: cs)).1 = (nil, cs) := by
  rw [descend]

@[simp] theorem descend_act (a : Action) (cs : List Command) :
    (descend (.act a :: cs)).1 = (act a (descend cs).1.1, (descend cs).1.2) := by
  rw [descend]

@[simp] theorem descend_openLoop (cs : List Command) :
    (descend (.openLoop :: cs)).1 =
      (loop (descend cs).1.1 (descend (descend cs).1.2).1.1, (descend (descend cs).1.2).1.2) := by
  rw [descend]

/-! ## The stack and the recursion -/

/-- Reading on from any stack of open bodies, as the recursion would: the
rest of the innermost body comes from `descend`, and what is left after it
belongs to the body around it. -/
theorem build_eq_descend (current : Code) (enclosing : List Code) (cs : List Command) :
    build current enclosing cs =
      match enclosing with
      | [] => current.reverse ++ (descend cs).1.1
      | outer :: enclosing =>
        build (loop (current.reverse ++ (descend cs).1.1) outer) enclosing (descend cs).1.2 := by
  match cs with
  | [] => cases enclosing <;> simp [build, closeAll]
  | .closeLoop :: cs => cases enclosing <;> simp [build]
  | .act a :: cs =>
    rw [build, build_eq_descend (act a current) enclosing cs]
    simp only [reverse_act, append_assoc, act_append, nil_append, descend_act]
  | .openLoop :: cs =>
    have behind_le : (descend cs).1.2.length ≤ cs.length := (descend cs).2
    -- The inner body is read first, into a stack one deeper; the loop it makes is then the
    -- newest instruction of `current`, and `current` is read on from behind it.
    rw [build, build_eq_descend nil (current :: enclosing) cs]
    simp only [reverse_nil, nil_append]
    rw [build_eq_descend (loop (descend cs).1.1 current) enclosing (descend cs).1.2]
    simp only [reverse_loop, append_assoc, loop_append, nil_append, descend_openLoop]
termination_by cs.length

/-! ## Only instructions -/

theorem proper_append {k l : Code} : (k ++ l).Proper ↔ k.Proper ∧ l.Proper := by
  induction k with
  | nil => simp [Proper]
  | act a k ih => simp [Proper, ih]
  | loop b k _ ih => simp [Proper, ih, and_assoc]
  | foreign f k => simp [Proper]

theorem proper_descend (cs : List Command) : (descend cs).1.1.Proper := by
  match cs with
  | [] => rw [descend_nil]; trivial
  | .closeLoop :: cs => rw [descend_closeLoop]; trivial
  | .act a :: cs => rw [descend_act]; exact proper_descend cs
  | .openLoop :: cs =>
    have behind_le : (descend cs).1.2.length ≤ cs.length := (descend cs).2
    rw [descend_openLoop]
    exact ⟨proper_descend cs, proper_descend (descend cs).1.2⟩
termination_by cs.length

/-- A program that was read consists of instructions only, at every depth. -/
theorem proper_ofCommands (cs : List Command) : (ofCommands cs).Proper := by
  rw [ofCommands, build_eq_descend, reverse_nil, nil_append]
  exact proper_descend cs

/-! ## The two readings -/

/-- **The stack of open bodies computes the recursive descent.** For every
command sequence, balanced or not: an action is its instruction, an opening
bracket one loop with everything up to the bracket that closes it or the end
of the commands, and a closing bracket at the top level ends the program. -/
theorem ofCommands_eq_ofGrammar (cs : List Command) : ofCommands cs = ofGrammar cs := by
  rw [ofCommands, build_eq_descend, ofGrammar, reverse_nil, nil_append]

end Code

end Brainfuck
