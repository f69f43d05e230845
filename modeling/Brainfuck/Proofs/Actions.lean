/-
What the steps of an execution do to the interpreter.

A step performs at most one action, and changes the interpreter in no other
way (`Machine.state_runFor_succ`, which also holds once the execution has
ended, for then there is no next action). Two things follow for whole runs.
What every action keeps, whether it succeeds or fails, a run of any length
keeps (`Machine.state_runFor`), such as the streams it is attached to
(`Machine.attachedTo_runFor`). And what an action counts is how often the
run has performed it: the reads of the source are the input actions
(`Machine.reads_runFor`), the bytes in a sink without a limit the output
actions (`Machine.held_runFor`).
-/
import Mathlib.Data.Nat.Count
import Brainfuck.Execution
import Brainfuck.Proofs.Steps
import Brainfuck.Proofs.World

namespace Brainfuck

/-- The interpreter as an action leaves it, whether it succeeds or fails. -/
def Effect.state : Effect → Interpreter
  | done i => i
  | fault _ i => i

/-- The interpreter, wherever an execution stands. -/
def Progress.state : Progress → Interpreter
  | running m => m.state
  | finished i => i
  | stopped _ i => i

namespace Progress

/-- To close an execution is to note at most that it has finished. -/
theorem world_close (p : Progress) : p.close.2.world = p.state.world := by
  cases p <;> rfl

theorem tape_close (p : Progress) : p.close.2.tape = p.state.tape :=
  congrArg World.tape p.world_close

theorem source_close (p : Progress) : p.close.2.source = p.state.source :=
  congrArg World.source p.world_close

theorem sink_close (p : Progress) : p.close.2.sink = p.state.sink :=
  congrArg World.sink p.world_close

end Progress

/-- The action that the next step performs, if it performs one. -/
def Machine.action? (m : Machine) : Option Action :=
  match m.frame.todo with
  | .act a _ => some a
  | _ => none

/-- The action that the next step performs, if there is a next step and it
performs one. -/
def Progress.action? : Progress → Option Action
  | running m => m.action?
  | finished _ => none
  | stopped _ _ => none

/-! ## One step -/

namespace Machine

theorem state_step (m : Machine) :
    m.step.state =
      match m.action? with
      | some a => (m.state.perform a).state
      | none => m.state := by
  rcases m.moves_or_halts with ⟨m', hm⟩ | ⟨r, hr⟩
  · rw [hm.step_eq]
    cases hm with
    | act hp => simp only [action?, hp]; rfl
    | skip | enter | again | leave => rfl
  · rw [hr.step_eq]
    cases hr with
    | finish | foreign => rfl
    | fault hp => simp only [action?, hp]; rfl

theorem runFor_one (m : Machine) : m.runFor 1 = m.step := by
  rw [runFor_succ]
  cases m.step <;> rfl

/-- Of a step more, only the action that it performs matters to the interpreter. -/
theorem state_runFor_succ (n : Nat) (m : Machine) :
    (m.runFor (n + 1)).state =
      match (m.runFor n).action? with
      | some a => ((m.runFor n).state.perform a).state
      | none => (m.runFor n).state := by
  rw [runFor_add]
  cases m.runFor n with
  | running m' =>
    show (m'.runFor 1).state = _
    rw [runFor_one, state_step]
    rfl
  -- An execution that has ended goes no further, and has no next action either.
  | finished i => rfl
  | stopped f i => rfl

/-- A run that has ended performs nothing more. -/
theorem action?_of_ended {n t : Nat} {m : Machine} {r : Result} (h : m.runFor n = r.progress)
    (ht : n ≤ t) : (m.runFor t).action? = none := by
  rw [runFor_of_ended h ht]
  cases r <;> rfl

/-- What every action keeps, every run keeps. -/
theorem state_runFor {P : Interpreter → Prop} (hP : ∀ a i, P i → P (i.perform a).state)
    {m : Machine} (h : P m.state) (n : Nat) : P (m.runFor n).state := by
  induction n with
  | zero => exact h
  | succ n ih =>
    rw [state_runFor_succ]
    cases (m.runFor n).action? with
    | none => exact ih
    | some a => exact hP a _ ih

end Machine

/-! ## What an action touches -/

theorem Effect.world_state (e : Effect) : e.state.world = e.world.2 := by
  cases e <;> rfl

theorem Interpreter.perform_state_world (a : Action) (i : Interpreter) :
    (i.perform a).state.world = (i.world.perform a).2 := by
  rw [Effect.world_state, perform_world]

namespace World

theorem size_perform (a : Action) (w : World) : (w.perform a).2.tape.size = w.tape.size := by
  cases a with
  | next => exact w.tape.size_advance
  | previous => exact w.tape.size_retreat
  | increment => exact w.tape.size_increment
  | decrement => exact w.tape.size_decrement
  | output => simp only [perform]; split <;> rfl
  | input =>
    simp only [perform]
    split
    · exact w.tape.size_put _
    all_goals rfl

theorem source_perform (a : Action) (w : World) :
    (w.perform a).2.source = if a = .input then w.source.advance else w.source := by
  cases a with
  | next | previous | increment | decrement => rfl
  | output => simp only [perform]; split <;> rfl
  | input => simp only [perform]; split <;> rfl

theorem sink_perform (a : Action) (w : World) :
    (w.perform a).2.sink =
      if a = .output ∧ w.sink.accepts = true then w.sink.push w.tape.read else w.sink := by
  cases a with
  | next | previous | increment | decrement => simp [perform]
  | output => simp only [perform]; split <;> simp [*]
  | input => simp only [perform]; split <;> simp

end World

namespace Interpreter

theorem size_perform (a : Action) (i : Interpreter) :
    (i.perform a).state.tape.size = i.tape.size := by
  have h := congrArg (fun w => w.tape.size) (perform_state_world a i)
  exact h.trans (i.world.size_perform a)

theorem source_perform (a : Action) (i : Interpreter) :
    (i.perform a).state.source = if a = .input then i.source.advance else i.source := by
  have h := congrArg World.source (perform_state_world a i)
  exact h.trans (i.world.source_perform a)

theorem sink_perform (a : Action) (i : Interpreter) :
    (i.perform a).state.sink =
      if a = .output ∧ i.sink.accepts = true then i.sink.push i.tape.read else i.sink := by
  have h := congrArg World.sink (perform_state_world a i)
  exact h.trans (i.world.sink_perform a)

end Interpreter

/-! ## The streams of an interpreter -/

/-- The interpreter is attached to two streams, however much has gone through
them: the source answers each read as it did, the sink takes as much and says
the same when it refuses. -/
structure Interpreter.AttachedTo (source : Source) (sink : Sink) (i : Interpreter) : Prop where
  reply_eq : i.source.reply = source.reply
  limit_eq : i.sink.limit = sink.limit
  refusal_eq : i.sink.refusal = sink.refusal

namespace Interpreter.AttachedTo

variable {source : Source} {sink : Sink} {i j : Interpreter}

theorem self (i : Interpreter) : i.AttachedTo i.source i.sink :=
  ⟨rfl, rfl, rfl⟩

theorem of_same (h : i.AttachedTo source sink) (hsource : j.source = i.source)
    (hsink : j.sink = i.sink) : j.AttachedTo source sink :=
  ⟨hsource ▸ h.reply_eq, hsink ▸ h.limit_eq, hsink ▸ h.refusal_eq⟩

theorem perform (h : i.AttachedTo source sink) (a : Action) :
    (i.perform a).state.AttachedTo source sink := by
  refine ⟨?_, ?_, ?_⟩
  · rw [i.source_perform a]
    split <;> exact h.reply_eq
  · rw [i.sink_perform a]
    split <;> exact h.limit_eq
  · rw [i.sink_perform a]
    split <;> exact h.refusal_eq

end Interpreter.AttachedTo

/-! ## What a run keeps and counts -/

namespace Machine

/-- How many of the first `n` steps perform an action. -/
def performed (a : Action) (n : Nat) (m : Machine) : Nat :=
  Nat.count (fun s => (m.runFor s).action? = some a) n

theorem performed_succ (a : Action) (n : Nat) (m : Machine) :
    m.performed a (n + 1) = m.performed a n + if (m.runFor n).action? = some a then 1 else 0 :=
  Nat.count_succ _ n

theorem performed_lt {a : Action} {s n : Nat} {m : Machine} (hs : s < n)
    (ha : (m.runFor s).action? = some a) : m.performed a s < m.performed a n := by
  have hsucc : m.performed a (s + 1) = m.performed a s + 1 := by rw [performed_succ, if_pos ha]
  have hle : m.performed a (s + 1) ≤ m.performed a n := Nat.count_monotone _ hs
  omega

theorem performed_le_of_ended {m : Machine} {n : Nat} {r : Result} (h : m.runFor n = r.progress)
    (a : Action) (s : Nat) : m.performed a s ≤ m.performed a n := by
  rcases Nat.le_total s n with hs | hs
  · exact Nat.count_monotone _ hs
  · induction s, hs using Nat.le_induction with
    | base => exact Nat.le_refl _
    | succ s hs ih =>
      rw [performed_succ, action?_of_ended h hs]
      exact ih

theorem size_runFor (n : Nat) (m : Machine) : (m.runFor n).state.tape.size = m.state.tape.size :=
  state_runFor (P := fun i => i.tape.size = m.state.tape.size)
    (fun a i h => (i.size_perform a).trans h) rfl n

theorem attachedTo_runFor {source : Source} {sink : Sink} {m : Machine}
    (h : m.state.AttachedTo source sink) (n : Nat) :
    (m.runFor n).state.AttachedTo source sink :=
  state_runFor (fun a _ hi => hi.perform a) h n

/-- Every read of the source is an input action. -/
theorem reads_runFor (n : Nat) (m : Machine) :
    (m.runFor n).state.source.reads = m.state.source.reads + m.performed .input n := by
  induction n with
  | zero => rfl
  | succ n ih =>
    rw [state_runFor_succ, performed_succ, ← Nat.add_assoc, ← ih]
    cases h : (m.runFor n).action? with
    | none => rfl
    | some a =>
      show ((m.runFor n).state.perform a).state.source.reads = _
      rw [Interpreter.source_perform]
      by_cases ha : a = .input
      · rw [if_pos ha, if_pos (congrArg some ha)]; rfl
      · rw [if_neg ha, if_neg (fun hs => ha (Option.some.inj hs))]; rfl

/-- A sink without a limit holds a byte for every output action. -/
theorem held_runFor {m : Machine} (hm : m.state.sink.limit = none) (n : Nat) :
    (m.runFor n).state.sink.held.size = m.state.sink.held.size + m.performed .output n := by
  induction n with
  | zero => rfl
  | succ n ih =>
    have haccepts : (m.runFor n).state.sink.accepts = true := by
      rw [Sink.accepts, (attachedTo_runFor (.self m.state) n).limit_eq, hm]
    rw [state_runFor_succ, performed_succ, ← Nat.add_assoc, ← ih]
    cases h : (m.runFor n).action? with
    | none => rfl
    | some a =>
      show ((m.runFor n).state.perform a).state.sink.held.size = _
      rw [Interpreter.sink_perform]
      by_cases ha : a = .output
      · rw [if_pos ⟨ha, haccepts⟩, if_pos (congrArg some ha)]
        exact Array.size_push _
      · rw [if_neg (fun hs => ha hs.1), if_neg (fun hs => ha (Option.some.inj hs))]; rfl

/-- What a sink holds at some time it holds from then on, in front of what comes after. -/
theorem held_prefix {s n : Nat} (m : Machine) (h : s ≤ n) :
    (m.runFor s).state.sink.held.toList <+: (m.runFor n).state.sink.held.toList := by
  obtain ⟨k, rfl⟩ := Nat.exists_eq_add_of_le h
  induction k with
  | zero => exact List.prefix_rfl
  | succ k ih =>
    refine (ih (Nat.le_add_right s k)).trans ?_
    rw [← Nat.add_assoc, state_runFor_succ]
    cases (m.runFor (s + k)).action? with
    | none => exact List.prefix_rfl
    | some a =>
      show _ <+: ((m.runFor (s + k)).state.perform a).state.sink.held.toList
      rw [Interpreter.sink_perform]
      split
      · simp [Sink.push]
      · exact List.prefix_rfl

end Machine

end Brainfuck
