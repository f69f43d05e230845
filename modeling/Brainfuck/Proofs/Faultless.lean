/-
The language has no errors of its own: a program text always is a program,
and when it runs, only the streams can stop it.

A text may be read with tables that might lack an entry and a stack that might
lack a body, and its program is the same (`LooseReader.read_eq`). Of an
execution two things are shown. Each step that it takes is a step of the
machine on a loose tape (`Machine.runFor_loose`), where every access by index,
every byte and every instruction is checked and could turn out to be a defect;
so none does, and the tape is as it should be all the time. And what stops it
comes from a stream, in the words of that stream (`Fault.FromStream`): an
action fails only because the sink takes no more or the source has failed, and
there is nothing but actions and loops in a program that was read, nor in any
body that its frames come to run.

The size of the memory is checked twice, by the options and by the memory
itself. What the first check lets through the second does too
(`MemorySize.ofValue_of_options`).
-/
import Brainfuck.Proofs.Frames
import Brainfuck.Proofs.Isolation
import Brainfuck.Proofs.LooseReading
import Brainfuck.Run

namespace Brainfuck

/-! ## The machine on a loose tape -/

/-- An execution under way on a loose tape. -/
structure LooseMachine where
  frame : Frame
  outer : List Frame
  world : LooseWorld

/-- Where an execution on a loose tape stands: it may also have come to a defect. -/
inductive LooseProgress where
  | running (m : LooseMachine)
  | finished (w : LooseWorld)
  | stopped (f : Fault) (w : LooseWorld)
  | broken (d : Defect)

namespace LooseMachine

/-- The machine about to run code on a cleared tape. -/
def ofCode (code : Code) (w : LooseWorld) : LooseMachine :=
  ⟨⟨code, code⟩, [], { w with tape := w.tape.clear }⟩

/-- One step. The cell is looked at for a loop and at the end of its body. -/
def step : LooseMachine → LooseProgress
  | ⟨⟨body, .act a rest⟩, outer, w⟩ =>
    match w.perform a with
    | .ok (none, w) => .running ⟨⟨body, rest⟩, outer, w⟩
    | .ok (some f, w) => .stopped f w
    | .error d => .broken d
  | ⟨⟨body, .loop inner rest⟩, outer, w⟩ =>
    match w.tape.fetch with
    | .ok v =>
      if v = 0 then .running ⟨⟨body, rest⟩, outer, w⟩
      else .running ⟨⟨inner, inner⟩, ⟨body, .loop inner rest⟩ :: outer, w⟩
    | .error d => .broken d
  | ⟨⟨_, .foreign f _⟩, _, _⟩ => .broken (.noInstruction f)
  | ⟨⟨_, .nil⟩, [], w⟩ => .finished w
  | ⟨⟨body, .nil⟩, parent :: outer, w⟩ =>
    match w.tape.fetch with
    | .ok v =>
      if v = 0 then .running ⟨⟨parent.body, parent.todo.tail⟩, outer, w⟩
      else .running ⟨⟨body, body⟩, parent :: outer, w⟩
    | .error d => .broken d

/-- At most so many steps. -/
def runFor : Nat → LooseMachine → LooseProgress
  | 0, m => .running m
  | n + 1, m =>
    match m.step with
    | .running m => runFor n m
    | ended => ended

end LooseMachine

/-- Wherever the execution stands it has come to no defect, and its tape is sound. -/
def LooseProgress.Sound (size : Nat) : LooseProgress → Prop
  | running m => m.world.tape.Sound size
  | finished w => w.tape.Sound size
  | stopped _ w => w.tape.Sound size
  | broken _ => False

/-! ## Executions seen on a loose tape -/

def Machine.loose (m : Machine) : LooseMachine :=
  ⟨m.frame, m.outer, m.state.world.loose⟩

/-- What is no instruction is a defect here. -/
def Progress.loose : Progress → LooseProgress
  | running m => .running m.loose
  | finished i => .finished i.world.loose
  | stopped (.unknownInstruction f) _ => .broken (.noInstruction f)
  | stopped f i => .stopped f i.world.loose

/-- An action fails because of a stream, with what that stream says: the sink
takes no more, and this is its refusal, or the source has answered the read
just made by this failure. -/
def Fault.FromStream (source : Source) (sink : Sink) : Fault → Interpreter → Prop
  | sinkFailed text, i => i.sink.accepts = false ∧ text = sink.refusal
  | sourceFailed text, i => ∃ r, i.source.reads = r + 1 ∧ source.reply r = .failure text
  | unknownInstruction _, _ => False

variable {source : Source} {sink : Sink}

theorem Interpreter.fromStream_of_perform {a : Action} {i j : Interpreter} {f : Fault}
    (hi : i.AttachedTo source sink) (h : i.perform a = .fault f j) :
    f.FromStream source sink j := by
  cases a with
  | next | previous | increment | decrement => cases h
  | output =>
    simp only [perform, output] at h
    by_cases ha : i.sink.accepts
    · rw [if_pos ha] at h; cases h
    · rw [if_neg ha] at h
      cases h
      exact ⟨Bool.eq_false_iff.mpr ha, hi.refusal_eq⟩
  | input =>
    simp only [perform, input] at h
    cases hreply : i.source.next with
    | data bytes =>
      rw [hreply] at h
      cases bytes with
      | nil => cases h
      | cons b bs => cases h
    | absent => rw [hreply] at h; cases h
    | failure text =>
      rw [hreply] at h
      cases h
      exact ⟨i.source.reads, rfl, hi.reply_eq ▸ hreply⟩

theorem Progress.stopped_loose {f : Fault} {i : Interpreter} (h : f.FromStream source sink i) :
    (stopped f i).loose = .stopped f i.world.loose := by
  cases f with
  | sinkFailed | sourceFailed => rfl
  | unknownInstruction g => exact h.elim

namespace Machine

theorem perform_loose (a : Action) (m : Machine) :
    m.loose.world.perform a =
      .ok ((m.state.perform a).world.1, (m.state.perform a).world.2.loose) := by
  rw [Interpreter.perform_world]
  exact m.state.world.perform_loose a

theorem step_loose_of_moves {m m' : Machine} (h : m.Moves m') :
    m.loose.step = .running m'.loose := by
  cases h with
  | @act a body rest outer i j hp =>
    have hw := perform_loose a ⟨⟨body, .act a rest⟩, outer, i⟩
    rw [hp] at hw
    simp only [LooseMachine.step, loose] at hw ⊢
    rw [hw]
    rfl
  -- Zero in the cell is the number zero, and anything else is not.
  | @skip body inner rest outer i hz | @leave body parent outer i hz =>
    have hv := i.tape.fetch_loose
    rw [hz] at hv
    simp only [LooseMachine.step, loose, World.loose, Interpreter.world_tape, hv]
    rfl
  | @enter body inner rest outer i hz | @again body parent outer i hz =>
    have hv := i.tape.fetch_loose
    have hne : (i.tape.read.toNat : Int) ≠ 0 := by
      intro h0
      exact hz (UInt8.toNat_inj.mp (Int.ofNat_inj.mp h0))
    simp only [LooseMachine.step, loose, World.loose, Interpreter.world_tape, hv, if_neg hne]

theorem step_loose_of_halts {m : Machine} {r : Result} (h : m.Halts r) :
    m.loose.step = r.progress.loose := by
  cases h with
  | finish => rfl
  | @fault a body rest outer i j f hp =>
    have hw := perform_loose a ⟨⟨body, .act a rest⟩, outer, i⟩
    rw [hp] at hw
    rw [Result.progress, Progress.stopped_loose (Interpreter.fromStream_of_perform (.self i) hp)]
    simp only [LooseMachine.step, loose] at hw ⊢
    rw [hw]
    rfl
  | foreign => rfl

theorem runFor_loose (n : Nat) (m : Machine) : m.loose.runFor n = (m.runFor n).loose := by
  induction n generalizing m with
  | zero => rfl
  | succ n ih =>
    rw [LooseMachine.runFor]
    rcases m.moves_or_halts with ⟨m', hm⟩ | ⟨r, hr⟩
    · rw [step_loose_of_moves hm, hm.runFor_succ]
      exact ih m'
    · rw [step_loose_of_halts hr, hr.runFor_succ]
      cases r with
      | finished i => rfl
      | stopped f i => cases f <;> rfl

/-- What stops a program that was read comes from a stream. -/
theorem fromStream_of_runFor {code : Code} (hk : code.Proper) {n : Nat} {m : Machine} {f : Fault}
    {j : Interpreter} (hp : Path code m.frame m.outer) (hm : m.state.AttachedTo source sink)
    (h : m.runFor n = .stopped f j) : f.FromStream source sink j := by
  obtain ⟨s, m', -, hs, hhalts⟩ := halts_of_runFor (r := .stopped f j) h
  have hproper : m'.frame.todo.Proper := (hp.of_runFor hs).proper hk
  have hattached := attachedTo_runFor hm s
  rw [hs] at hattached
  cases hhalts with
  | fault hf => exact Interpreter.fromStream_of_perform hattached hf
  -- The frames form a path in the code, and there is no such thing in it.
  | foreign => exact hproper.elim

end Machine

/-! ## Executions of a text -/

namespace Interpreter

theorem loose_machine (code : Code) (i : Interpreter) :
    (i.machine code).loose = LooseMachine.ofCode code i.world.loose := by
  simp only [LooseMachine.ofCode, World.loose, Tape.clear_loose, world_tape]
  rfl

theorem fromStream_of_execute {n : Nat} {t : ProgramText} {f : Fault} {i j : Interpreter}
    (hi : i.AttachedTo source sink) (h : i.execute n t = (.stopped f, j)) :
    f.FromStream source sink j := by
  have hproper : (Code.parse t).Proper := Code.proper_ofCommands t.commands
  rw [execute, run] at h
  cases hrun : (i.machine (Code.parse t)).runFor n with
  | running m => rw [hrun] at h; cases h
  | finished k => rw [hrun] at h; cases h
  | stopped g k =>
    rw [hrun] at h
    cases h
    exact Machine.fromStream_of_runFor hproper (Path.start _) (hi.of_same rfl rfl) hrun

theorem sound_runFor_loose (n : Nat) (t : ProgramText) (i : Interpreter) :
    ((i.machine (Code.parse t)).runFor n).loose.Sound i.tape.size := by
  have hproper : (Code.parse t).Proper := Code.proper_ofCommands t.commands
  have hsize : ((i.machine (Code.parse t)).runFor n).state.tape.size = i.tape.size :=
    (Machine.size_runFor n _).trans i.tape.size_clear
  cases hrun : (i.machine (Code.parse t)).runFor n with
  | running m =>
    rw [hrun] at hsize
    exact hsize ▸ m.state.tape.sound_loose
  | finished j =>
    rw [hrun] at hsize
    exact hsize ▸ j.tape.sound_loose
  | stopped f j =>
    rw [hrun] at hsize
    rw [Progress.stopped_loose
      (Machine.fromStream_of_runFor hproper (Path.start _) (.self _) hrun)]
    exact hsize ▸ j.tape.sound_loose

end Interpreter

/-- On buffers a run ends well or is still going on. -/
theorem runText_ok_or_running (n : Nat) (t : ProgramText) (input : Array UInt8)
    (options : Options) :
    (∃ r, runText n t input options = .ok r) ∨
      runText n t input options = .error .unfinished ∧
        ∃ m, ((Interpreter.new options.memorySize (.ofBytes input) (.empty none)).machine
          (Code.parse t)).runFor n = .running m := by
  have hproper : (Code.parse t).Proper := Code.proper_ofCommands t.commands
  have hattached := Machine.attachedTo_runFor
    (m := (Interpreter.new options.memorySize (.ofBytes input) (.empty none)).machine
      (Code.parse t)) ⟨rfl, rfl, rfl⟩ n
  simp only [runText, Interpreter.run]
  cases hrun : ((Interpreter.new options.memorySize (.ofBytes input) (.empty none)).machine
      (Code.parse t)).runFor n with
  | running m => exact .inr ⟨rfl, m, rfl⟩
  | finished j => exact .inl ⟨_, rfl⟩
  | stopped f j =>
    rw [hrun] at hattached
    have hfrom : f.FromStream (.ofBytes input) (.empty none) j :=
      Machine.fromStream_of_runFor hproper (Path.start _) ⟨rfl, rfl, rfl⟩ hrun
    exfalso
    cases f with
    | sinkFailed text =>
      have hnone : j.sink.limit = none := hattached.limit_eq
      simp [Fault.FromStream, Sink.accepts, hnone] at hfrom
    | sourceFailed text =>
      obtain ⟨r, -, hfail⟩ := hfrom
      simp only [Source.ofBytes] at hfail
      split at hfail <;> cases hfail
    | unknownInstruction g => exact hfrom

/-- **The language has no errors of its own.** A size that options accept
makes a memory. Every program text is a program of actions and loops, and is
read as one when each lookup in a table might find nothing. However the
interpreter has been used before, executing it comes to no defect, on a
tape of which nothing is taken for granted: the cursor is always on a cell and
every cell is a byte. Only the streams can stop it, and what stops it is what
they say. On buffers nothing can: it ends well or goes on. -/
theorem execute_faultless {v : Value} {encoding : String} {options : Options}
    (h : Options.ofValue v encoding = .ok options) :
    MemorySize.ofValue v = .ok options.memorySize ∧
      ∀ t : ProgramText, LooseReader.read t = .ok (Code.parse t) ∧ (Code.parse t).Proper ∧
        (∀ (source : Source) (sink : Sink) (fuel : Nat) (history : List Request) (n : Nat),
          let i := ((Session.new (.new options.memorySize source sink)).performAll
            fuel history).interpreter
          let loose := (LooseMachine.ofCode (Code.parse t) i.world.loose).runFor n
          loose = ((i.machine (Code.parse t)).runFor n).loose ∧
            loose.Sound options.memorySize.cells ∧
            ∀ f j, i.execute n t = (.stopped f, j) → f.FromStream source sink j) ∧
        ∀ (input : Array UInt8) (n : Nat),
          (∃ r, runText n t input options = .ok r) ∨
            runText n t input options = .error .unfinished ∧
              ∃ m, ((Interpreter.new options.memorySize (.ofBytes input) (.empty none)).machine
                (Code.parse t)).runFor n = .running m := by
  refine ⟨MemorySize.ofValue_of_options h, fun t => ⟨LooseReader.read_eq t,
    Code.proper_ofCommands t.commands, ?_, fun input n => runText_ok_or_running n t input options⟩⟩
  intro source sink fuel history n i loose
  have hsize : i.tape.size = options.memorySize.cells :=
    (Session.size_performAll fuel _ history).trans (Tape.size_blank _)
  have hloose : loose = ((i.machine (Code.parse t)).runFor n).loose := by
    rw [← Machine.runFor_loose, Interpreter.loose_machine]
  have hattached : i.AttachedTo source sink :=
    Session.attachedTo_performAll (s := .new (.new options.memorySize source sink)) ⟨rfl, rfl, rfl⟩
      fuel history
  refine ⟨hloose, ?_, fun f j => Interpreter.fromStream_of_execute hattached⟩
  rw [hloose, ← hsize]
  exact i.sound_runFor_loose n t

/-- Three cells, and an interpreter whose cursor has been moved off and whose
last program was none. -/
theorem execute_faultless_three :
    Options.ofValue (.int 3) "utf-8" = .ok ⟨⟨3, by decide⟩, "utf-8"⟩ ∧
      MemorySize.ofValue (.int 3) = .ok ⟨3, by decide⟩ ∧
      ∀ n, ((LooseMachine.ofCode (Code.parse (.text "-<[.,]"))
        ((Session.new (.new ⟨3, by decide⟩ (.ofBytes #[1]) (.refusing 2 "full"))).performAll 9
          [.move (-4), .runCode (.foreign (.text "x") .nil)]).interpreter.world.loose).runFor
            n).Sound 3 := by
  have hoptions : Options.ofValue (.int 3) "utf-8" = .ok ⟨⟨3, by decide⟩, "utf-8"⟩ := rfl
  have hfaultless := execute_faultless hoptions
  refine ⟨hoptions, hfaultless.1, fun n => ?_⟩
  exact ((hfaultless.2 (.text "-<[.,]")).2.2.1 (.ofBytes #[1]) (.refusing 2 "full") 9
    [.move (-4), .runCode (.foreign (.text "x") .nil)] n).2.1

end Brainfuck
