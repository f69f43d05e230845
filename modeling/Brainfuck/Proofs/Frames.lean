/-
The frames of an execution form a path in the tree of the code that is run.

The outermost frame runs the code itself; each frame further in runs the body
of the loop that the frame around it has in front; and what a frame has left
of its body is an end of it. Every step keeps this (`Path.of_moves`): a frame
that goes leaves its parent in front of the very loop whose body it ran. So a
whole run keeps it (`Path.of_runFor`), and nothing comes to be run that does
not stand in the code. Each frame is one loop further down, so the depth of the
code bounds their number (`Path.depth_le`).
-/
import Brainfuck.Proofs.Descent
import Brainfuck.Proofs.Steps

namespace Brainfuck

/-- The frames, innermost first, form a path in the tree of `code`. -/
inductive Path (code : Code) : Frame → List Frame → Prop where
  | top {done todo : Code} : code = done ++ todo → Path code ⟨code, todo⟩ []
  | inside {body inner rest done todo : Code} {outer : List Frame} :
    Path code ⟨body, .loop inner rest⟩ outer → inner = done ++ todo →
      Path code ⟨inner, todo⟩ (⟨body, .loop inner rest⟩ :: outer)

namespace Path

theorem start (code : Code) : Path code ⟨code, code⟩ [] :=
  .top (Code.nil_append code).symm

/-- Some instructions of the innermost body further on. -/
theorem past (first : Code) {code body rest : Code} {outer : List Frame}
    (h : Path code ⟨body, first ++ rest⟩ outer) : Path code ⟨body, rest⟩ outer := by
  cases h with
  | @top done _ hb => exact .top (hb.trans (Code.append_assoc done first rest).symm)
  | @inside _ _ _ done _ _ hp hb =>
    exact .inside hp (hb.trans (Code.append_assoc done first rest).symm)

theorem of_moves {code : Code} {m m' : Machine} (h : Path code m.frame m.outer)
    (hm : m.Moves m') : Path code m'.frame m'.outer := by
  cases hm with
  | @act a => exact past (.act a .nil) h
  | @skip _ inner => exact past (.loop inner .nil) h
  | @enter _ inner => exact .inside h (Code.nil_append inner).symm
  | @again body =>
    cases h with
    | inside hp _ => exact .inside hp (Code.nil_append body).symm
  | @leave body =>
    cases h with
    | inside hp _ => exact past (.loop body .nil) hp

theorem of_runFor {code : Code} {n : Nat} {m m' : Machine} (h : Path code m.frame m.outer)
    (hrun : m.runFor n = .running m') : Path code m'.frame m'.outer := by
  induction n generalizing m with
  | zero => cases hrun; exact h
  | succ n ih =>
    rcases m.moves_or_halts with ⟨m'', hm⟩ | ⟨r, hr⟩
    · rw [hm.runFor_succ] at hrun
      exact ih (h.of_moves hm) hrun
    · rw [hr.runFor_succ] at hrun
      exact absurd hrun (r.progress_ne_running m')

theorem proper {code : Code} {frame : Frame} {outer : List Frame} (h : Path code frame outer)
    (hk : code.Proper) : frame.todo.Proper := by
  induction h with
  | top hb => rw [hb] at hk; exact (Code.proper_append.mp hk).2
  | inside _ hb ih => rw [hb] at ih; exact (Code.proper_append.mp ih.1).2

/-- Each frame is one loop further down. -/
theorem depth_le {code : Code} {frame : Frame} {outer : List Frame} (h : Path code frame outer) :
    outer.length + frame.todo.depth ≤ code.depth := by
  induction h with
  | @top done todo hb =>
    rw [hb, List.length_nil, Nat.zero_add]
    exact Code.depth_le_append done todo
  | @inside body inner rest done todo outer _ hb ih =>
    have hinner : todo.depth ≤ inner.depth := by
      rw [hb]
      exact Code.depth_le_append done todo
    have hloop : inner.depth + 1 ≤ (Code.loop inner rest).depth := Nat.le_max_left ..
    have hih : outer.length + (Code.loop inner rest).depth ≤ code.depth := ih
    show outer.length + 1 + todo.depth ≤ code.depth
    omega

end Path

/-- Wherever a run from the start of some code stands, its frames form a path. -/
theorem Machine.path_of_runFor {code : Code} {i : Interpreter} {n : Nat} {m : Machine}
    (h : (ofCode code i).runFor n = .running m) : Path code m.frame m.outer :=
  (Path.start code).of_runFor (m := ofCode code i) h

end Brainfuck
