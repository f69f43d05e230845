/-
The stack of frames, seen as indices into the bodies.

A frame keeps what is left of its body on this pass. The same execution can be
run with an index in each frame instead: the number of the instruction that is
next (`IndexMachine`). The index of a frame goes up by one past an action or a
loop that is skipped; it stays on a loop while the body of that loop runs, and
goes up when the body's frame goes; and it is set back to zero where a body
begins again. Both machines go in lock step (`IndexMachine.agree_runFor`): the
index is at all times the number of instructions in front of what is left
(`Position.Marks`).

So what the stack of indices looks like follows from the frames being a path in
the tree of the code (`IndexMachine.OnPath.of_marks`), and as each frame is one
loop further down, the nesting of the code bounds their number.
-/
import Mathlib.Data.List.Forall2
import Brainfuck.Proofs.Frames

namespace Brainfuck

/-- An instruction of a sequence. -/
inductive Instruction where
  | act (a : Action)
  | loop (body : Code)
  | foreign (f : Foreign)
  deriving DecidableEq, Repr

namespace Code

/-- The instruction at an index, if the sequence is that long. -/
def instruction? : Code → Nat → Option Instruction
  | nil, _ => none
  | act a _, 0 => some (.act a)
  | loop b _, 0 => some (.loop b)
  | foreign f _, 0 => some (.foreign f)
  | act _ k, n + 1 => k.instruction? n
  | loop _ k, n + 1 => k.instruction? n
  | foreign _ k, n + 1 => k.instruction? n

theorem instruction?_append (k l : Code) : (k ++ l).instruction? k.length = l.instruction? 0 := by
  induction k with
  | nil => rfl
  | act a k ih => exact ih
  | loop b k _ ih => exact ih
  | foreign f k ih => exact ih

end Code

/-! ## The machine with indices -/

/-- A body under way: all of it, and the index of the instruction that is next. -/
structure Position where
  body : Code
  index : Nat
  deriving DecidableEq, Repr

namespace Position

/-- Where a body begins. -/
def start (body : Code) : Position := ⟨body, 0⟩

/-- One instruction further on. -/
def next (p : Position) : Position := ⟨p.body, p.index + 1⟩

/-- The instruction that is next, unless the body is at its end. -/
def instruction? (p : Position) : Option Instruction :=
  p.body.instruction? p.index

end Position

/-- An execution under way, the positions innermost first. -/
structure IndexMachine where
  position : Position
  outer : List Position
  state : Interpreter

namespace IndexMachine

/-- The machine about to run code from its start. -/
def ofCode (code : Code) (i : Interpreter) : IndexMachine :=
  ⟨.start code, [], i⟩

/-- All positions, innermost first. -/
def stack (w : IndexMachine) : List Position :=
  w.position :: w.outer

/-- One step: to where the execution goes on, or to its result. -/
def step : IndexMachine → Result ⊕ IndexMachine
  | ⟨p, outer, i⟩ =>
    match p.instruction?, outer with
    | some (.act a), _ =>
      match i.perform a with
      | .done i => .inr ⟨p.next, outer, i⟩
      | .fault f i => .inl (.stopped f i)
    | some (.loop inner), _ =>
      if i.tape.read = 0 then .inr ⟨p.next, outer, i⟩
      else .inr ⟨.start inner, p :: outer, i⟩
    | some (.foreign f), _ => .inl (.stopped (.unknownInstruction f) i)
    | none, [] => .inl (.finished i)
    | none, parent :: rest =>
      if i.tape.read = 0 then .inr ⟨parent.next, rest, i⟩
      else .inr ⟨.start p.body, parent :: rest, i⟩

/-- At most so many steps. -/
def runFor : Nat → IndexMachine → Result ⊕ IndexMachine
  | 0, w => .inr w
  | n + 1, w =>
    match w.step with
    | .inr w => runFor n w
    | .inl r => .inl r

end IndexMachine

/-! ## Positions and frames -/

/-- A position and a frame say the same: the index is the number of
instructions of the body in front of what is left. -/
structure Position.Marks (p : Position) (f : Frame) : Prop where
  body : p.body = f.body
  index : ∃ done : Code, p.index = done.length ∧ f.body = done ++ f.todo

namespace Position.Marks

variable {p : Position} {f : Frame} {body rest : Code}

theorem start (body : Code) : (Position.start body).Marks ⟨body, body⟩ :=
  ⟨rfl, .nil, rfl, rfl⟩

/-- One instruction further on. -/
theorem next (first : Code) (h : p.Marks ⟨body, first ++ rest⟩) (hfirst : first.length = 1) :
    p.next.Marks ⟨body, rest⟩ := by
  obtain ⟨hbody, done, hindex, hdone⟩ := h
  refine ⟨hbody, done ++ first, ?_, ?_⟩
  · rw [Code.length_append, hfirst, ← hindex]
    rfl
  · exact hdone.trans (Code.append_assoc done first rest).symm

theorem instruction?_eq (h : p.Marks f) : p.instruction? = f.todo.instruction? 0 := by
  obtain ⟨hbody, done, hindex, hdone⟩ := h
  rw [Position.instruction?, hbody, hdone, hindex, Code.instruction?_append]

theorem length_eq (h : p.Marks f) : p.body.length = p.index + f.todo.length := by
  obtain ⟨hbody, done, hindex, hdone⟩ := h
  rw [hbody, hdone, hindex, Code.length_append]

end Position.Marks

/-! ## In lock step -/

namespace IndexMachine

/-- The two machines stand at the same place. -/
structure Marks (w : IndexMachine) (m : Machine) : Prop where
  position : w.position.Marks m.frame
  outer : List.Forall₂ Position.Marks w.outer m.outer
  state : w.state = m.state

/-- The two machines go on at the same place, or have come to the same result. -/
inductive Agree : Result ⊕ IndexMachine → Progress → Prop where
  | running {w : IndexMachine} {m : Machine} : w.Marks m → Agree (.inr w) (.running m)
  | ended (r : Result) : Agree (.inl r) r.progress

variable {code : Code} {w : IndexMachine} {m : Machine}

theorem Marks.step_of_moves {m' : Machine} (h : w.Marks m) (hp : Path code m.frame m.outer)
    (hm : m.Moves m') : ∃ w', w.step = .inr w' ∧ w'.Marks m' := by
  obtain ⟨p, outer, _⟩ := w
  obtain ⟨hpos, houter, rfl⟩ := h
  have hat : p.instruction? = m.frame.todo.instruction? 0 := hpos.instruction?_eq
  cases hm with
  | @act a _ _ _ i j ha =>
    refine ⟨⟨p.next, outer, j⟩, ?_, hpos.next (.act a .nil) rfl, houter, rfl⟩
    simp [step, hat, Code.instruction?, ha]
  | @skip _ inner _ _ i hz =>
    refine ⟨⟨p.next, outer, i⟩, ?_, hpos.next (.loop inner .nil) rfl, houter, rfl⟩
    simp [step, hat, Code.instruction?, hz]
  | @enter _ inner _ _ i hz =>
    refine ⟨⟨.start inner, p :: outer, i⟩, ?_, .start inner, .cons hpos houter, rfl⟩
    simp [step, hat, Code.instruction?, hz]
  | @again body _ _ i hz =>
    have hbody : p.body = body := hpos.body
    cases houter with
    | @cons q _ qs _ hq hqs =>
      refine ⟨⟨.start body, q :: qs, i⟩, ?_, .start body, .cons hq hqs, rfl⟩
      simp [step, hat, Code.instruction?, hz, hbody]
  | @leave body _ _ i hz =>
    cases houter with
    | @cons q _ qs _ hq hqs =>
      -- The index that goes up is on the loop whose body is done.
      cases hp with
      | inside =>
        refine ⟨⟨q.next, qs, i⟩, ?_, hq.next (.loop body .nil) rfl, hqs, rfl⟩
        simp [step, hat, Code.instruction?, hz]

theorem Marks.step_of_halts {r : Result} (h : w.Marks m) (hr : m.Halts r) : w.step = .inl r := by
  obtain ⟨p, outer, _⟩ := w
  obtain ⟨hpos, houter, rfl⟩ := h
  have hat : p.instruction? = m.frame.todo.instruction? 0 := hpos.instruction?_eq
  cases hr with
  | finish =>
    cases houter
    simp [step, hat, Code.instruction?]
  | fault hf => simp [step, hat, Code.instruction?, hf]
  | foreign => simp [step, hat, Code.instruction?]

/-- After any number of steps both machines stand at the same place, or have
come to the same result. -/
theorem agree_runFor (n : Nat) (h : w.Marks m) (hp : Path code m.frame m.outer) :
    Agree (w.runFor n) (m.runFor n) := by
  induction n generalizing w m with
  | zero => exact .running h
  | succ n ih =>
    rcases m.moves_or_halts with ⟨m', hm⟩ | ⟨r, hr⟩
    · obtain ⟨w', hw, h'⟩ := h.step_of_moves hp hm
      rw [runFor, hw, hm.runFor_succ]
      exact ih h' (hp.of_moves hm)
    · rw [runFor, h.step_of_halts hr, hr.runFor_succ]
      exact .ended r

theorem marks_ofCode (code : Code) (i : Interpreter) :
    (ofCode code i).Marks (Machine.ofCode code i) :=
  ⟨.start code, .nil, rfl⟩

end IndexMachine

/-! ## The path -/

/-- A position is on the loop whose body is that of a position further in. -/
def Position.OnLoopOf (outer inner : Position) : Prop :=
  outer.index < outer.body.length ∧ outer.instruction? = some (.loop inner.body)

/-- The stack is a path in the tree of `code`, from the whole of it down. -/
structure IndexMachine.OnPath (code : Code) (w : IndexMachine) : Prop where
  /-- The outermost body is the code itself. -/
  outermost : (w.stack.getLast (List.cons_ne_nil w.position w.outer)).body = code
  /-- Each but the innermost is on the loop whose body is that of the next one in. -/
  enclosing : w.stack.IsChain fun inner outer => outer.OnLoopOf inner
  /-- The innermost is in its body or at the end of it. -/
  innermost : w.position.index ≤ w.position.body.length
  /-- There is at most one more than the loops are nested. -/
  height : w.stack.length ≤ code.nesting + 1

namespace Path

variable {code : Code} {frame : Frame} {outer : List Frame}

theorem onLoopOf {p : Position} {ps : List Position} (h : Path code frame outer)
    (hp : p.Marks frame) (hps : List.Forall₂ Position.Marks ps outer) :
    ((p :: ps).getLast (List.cons_ne_nil p ps)).body = code ∧
      (p :: ps).IsChain fun inner outer => outer.OnLoopOf inner := by
  induction h generalizing p ps with
  | top hb =>
    cases hps
    exact ⟨hp.body, .singleton p⟩
  | @inside body inner rest done todo outer _ hb ih =>
    cases hps with
    | @cons q _ qs _ hq hqs =>
      obtain ⟨hlast, hchain⟩ := ih hq hqs
      have hlength : q.body.length = q.index + (rest.length + 1) := hq.length_eq
      have hloop : q.instruction? = some (.loop inner) := hq.instruction?_eq
      refine ⟨hlast, .cons_cons ⟨by omega, ?_⟩ hchain⟩
      rw [hloop, hp.body]

end Path

theorem IndexMachine.OnPath.of_marks {code : Code} {w : IndexMachine} {m : Machine}
    (h : w.Marks m) (hp : Path code m.frame m.outer) : w.OnPath code := by
  obtain ⟨houtermost, henclosing⟩ := hp.onLoopOf h.position h.outer
  refine ⟨houtermost, henclosing, ?_, ?_⟩
  · rw [h.position.length_eq]
    exact Nat.le_add_right ..
  · have hdepth := hp.depth_le
    have hheight : w.outer.length = m.outer.length := h.outer.length_eq
    rw [Code.nesting_eq_depth, stack, List.length_cons]
    omega

/-- **The frames are a path in the tree of the program.** The machine and the
one with indices run in lock step on any code, from any state: after any number
of steps they stand at the same place or have come to the same result. And
wherever they stand, the outermost frame runs the code itself; the index of
every frame but the innermost is within its body, on a loop whose body is that
of the next frame in; the index of the innermost is at most the length of its
body; and there is at most one frame more than the loops are nested. -/
theorem Machine.frames_on_path (code : Code) (i : Interpreter) (n : Nat) :
    IndexMachine.Agree ((IndexMachine.ofCode code i).runFor n) ((ofCode code i).runFor n) ∧
      ∀ w, (IndexMachine.ofCode code i).runFor n = .inr w → w.OnPath code := by
  have hagree := IndexMachine.agree_runFor n (IndexMachine.marks_ofCode code i) (.start code)
  refine ⟨hagree, fun w hw => ?_⟩
  rw [hw] at hagree
  generalize hm : (ofCode code i).runFor n = progress at hagree
  cases hagree with
  | running h => exact .of_marks h (path_of_runFor hm)

/-- Three loops inside one another, run to the end of the innermost body: the
stack is as high as it can be, and the index at the top is the length of its
body. -/
theorem frames_on_path_nested :
    let i := Interpreter.new ⟨2, by decide⟩ (.ofBytes #[]) (.empty none)
    let code := Code.parse (.text "+[>+[[-]<]]")
    ∃ w, (IndexMachine.ofCode code i).runFor 7 = .inr w ∧
      w.stack.map Position.index = [1, 0, 2, 1] ∧ w.position.body.length = 1 ∧
      code.nesting = 3 ∧ w.OnPath code := by
  intro i code
  have hnesting : code.nesting = 3 := by
    rw [Code.nesting_eq_depth]
    decide
  exact ⟨_, rfl, by decide, by decide, hnesting, (Machine.frames_on_path code i 7).2 _ rfl⟩

end Brainfuck
