/-
The machine with its stack of frames does what the recursive semantics says:
it comes to exactly the results that `Runs` gives, and goes on for ever
exactly when `Runs` gives none.

One way, a stack of frames is read as the code it has left to run
(`Machine.remaining`), body after body from the innermost outwards. A step
backwards turns a run of what is left after it into a run of what is left
before it (`Runs.of_moves`); that the frames form a path matters at the end
of a body, where what is left outside must start with the loop itself.

The other way is by induction on the run: its code, in front of whatever
frames, is worked off in some number of steps (`Runs.runFor_eq`). The end of
a loop's body and the loop itself are then the same state in all but name,
for both test the cell and go on alike (`step_end_eq_step_loop`).
-/
import Brainfuck.Proofs.Frames

namespace Brainfuck

namespace Code

theorem append_eq_nil {k l : Code} (h : k ++ l = nil) : k = nil ∧ l = nil := by
  cases k with
  | nil => exact ⟨rfl, h⟩
  | _ => cases h

theorem append_eq_act {k l m : Code} {a : Action} (h : k ++ l = act a m) :
    (k = nil ∧ l = act a m) ∨ ∃ k', k = act a k' ∧ k' ++ l = m := by
  cases k with
  | nil => exact .inl ⟨rfl, h⟩
  | act b k => cases h; exact .inr ⟨k, rfl, rfl⟩
  | _ => cases h

theorem append_eq_loop {k l b m : Code} (h : k ++ l = loop b m) :
    (k = nil ∧ l = loop b m) ∨ ∃ k', k = loop b k' ∧ k' ++ l = m := by
  cases k with
  | nil => exact .inl ⟨rfl, h⟩
  | loop c k => cases h; exact .inr ⟨k, rfl, rfl⟩
  | _ => cases h

theorem append_eq_foreign {k l m : Code} {f : Foreign} (h : k ++ l = foreign f m) :
    (k = nil ∧ l = foreign f m) ∨ ∃ k', k = foreign f k' ∧ k' ++ l = m := by
  cases k with
  | nil => exact .inl ⟨rfl, h⟩
  | foreign g k => cases h; exact .inr ⟨k, rfl, rfl⟩
  | _ => cases h

end Code

/-! ## Code that stands in front of code -/

/-- A run of two pieces of code is stopped in the first of them, or finishes
it and is a run of the second from there. -/
theorem Runs.of_append {k l : Code} {i : Interpreter} {r : Result} (h : Runs (k ++ l) i r) :
    (∃ f j, r = .stopped f j ∧ Runs k i r) ∨ ∃ j, Runs k i (.finished j) ∧ Runs l j r := by
  generalize hkl : k ++ l = kl at h
  induction h generalizing k with
  | @nil i =>
    obtain ⟨rfl, rfl⟩ := Code.append_eq_nil hkl
    exact .inr ⟨i, .nil, .nil⟩
  | act hp hr ih =>
    rcases Code.append_eq_act hkl with ⟨rfl, rfl⟩ | ⟨k, rfl, hrest⟩
    · exact .inr ⟨_, .nil, .act hp hr⟩
    · rcases ih hrest with ⟨f, j, rfl, hk⟩ | ⟨j, hk, hl⟩
      · exact .inl ⟨f, j, rfl, .act hp hk⟩
      · exact .inr ⟨j, .act hp hk, hl⟩
  | actStopped hp =>
    rcases Code.append_eq_act hkl with ⟨rfl, rfl⟩ | ⟨k, rfl, -⟩
    · exact .inr ⟨_, .nil, .actStopped hp⟩
    · exact .inl ⟨_, _, rfl, .actStopped hp⟩
  | skip hz hr ih =>
    rcases Code.append_eq_loop hkl with ⟨rfl, rfl⟩ | ⟨k, rfl, hrest⟩
    · exact .inr ⟨_, .nil, .skip hz hr⟩
    · rcases ih hrest with ⟨f, j, rfl, hk⟩ | ⟨j, hk, hl⟩
      · exact .inl ⟨f, j, rfl, .skip hz hk⟩
      · exact .inr ⟨j, .skip hz hk, hl⟩
  | pass hz hb hr _ ih =>
    rcases Code.append_eq_loop hkl with ⟨rfl, rfl⟩ | ⟨k, rfl, rfl⟩
    · exact .inr ⟨_, .nil, .pass hz hb hr⟩
    · -- The further passes are a run of the same loop, in front of the same code.
      rcases @ih (.loop _ k) rfl with ⟨f, j, rfl, hk⟩ | ⟨j, hk, hl⟩
      · exact .inl ⟨f, j, rfl, .pass hz hb hk⟩
      · exact .inr ⟨j, .pass hz hb hk, hl⟩
  | passStopped hz hb =>
    rcases Code.append_eq_loop hkl with ⟨rfl, rfl⟩ | ⟨k, rfl, -⟩
    · exact .inr ⟨_, .nil, .passStopped hz hb⟩
    · exact .inl ⟨_, _, rfl, .passStopped hz hb⟩
  | foreign =>
    rcases Code.append_eq_foreign hkl with ⟨rfl, rfl⟩ | ⟨k, rfl, -⟩
    · exact .inr ⟨_, .nil, .foreign⟩
    · exact .inl ⟨_, _, rfl, .foreign⟩

/-- While the cell is not zero, a loop is its body in front of the loop. -/
theorem Runs.of_body {b k : Code} {i : Interpreter} {r : Result} (hz : i.tape.read ≠ 0)
    (h : Runs (b ++ .loop b k) i r) : Runs (.loop b k) i r := by
  rcases h.of_append with ⟨f, j, rfl, hb⟩ | ⟨j, hb, hr⟩
  · exact .passStopped hz hb
  · exact .pass hz hb hr

/-! ## From the machine to the semantics -/

/-- Code, and behind it what is left of each body around it. -/
def Frame.unwind : Code → List Frame → Code
  | k, [] => k
  | k, parent :: outer => k ++ unwind parent.todo outer

theorem Frame.unwind_act (a : Action) (k : Code) (outer : List Frame) :
    unwind (.act a k) outer = .act a (unwind k outer) := by
  cases outer <;> rfl

theorem Frame.unwind_loop (b k : Code) (outer : List Frame) :
    unwind (.loop b k) outer = .loop b (unwind k outer) := by
  cases outer <;> rfl

theorem Frame.unwind_foreign (f : Foreign) (k : Code) (outer : List Frame) :
    unwind (.foreign f k) outer = .foreign f (unwind k outer) := by
  cases outer <;> rfl

/-- The code that a machine has left to run. -/
def Machine.remaining (m : Machine) : Code :=
  Frame.unwind m.frame.todo m.outer

/-- What a step can do with the code that is left: its first action is done, its
first loop is skipped, or the body of that loop is put in front. -/
inductive Unfolds : Code → Interpreter → Code → Interpreter → Prop where
  | act {a : Action} {k : Code} {i j : Interpreter} :
    i.perform a = .done j → Unfolds (.act a k) i k j
  | skip {b k : Code} {i : Interpreter} : i.tape.read = 0 → Unfolds (.loop b k) i k i
  | body {b k : Code} {i : Interpreter} :
    i.tape.read ≠ 0 → Unfolds (.loop b k) i (b ++ .loop b k) i

theorem Machine.Moves.unfolds {code : Code} {m m' : Machine} (hp : Path code m.frame m.outer)
    (hm : m.Moves m') : Unfolds m.remaining m.state m'.remaining m'.state := by
  cases hm with
  | @act a body rest outer i j ha =>
    show Unfolds (Frame.unwind (.act a rest) outer) i (Frame.unwind rest outer) j
    rw [Frame.unwind_act]
    exact .act ha
  | @skip body inner rest outer i hz =>
    show Unfolds (Frame.unwind (.loop inner rest) outer) i (Frame.unwind rest outer) i
    rw [Frame.unwind_loop]
    exact .skip hz
  | @enter body inner rest outer i hz =>
    show Unfolds (Frame.unwind (.loop inner rest) outer) i
      (inner ++ Frame.unwind (.loop inner rest) outer) i
    rw [Frame.unwind_loop]
    exact .body hz
  | @again body parent outer i hz =>
    cases hp with
    | @inside body' _ rest =>
      show Unfolds (.nil ++ Frame.unwind (.loop body rest) outer) i
        (body ++ Frame.unwind (.loop body rest) outer) i
      rw [Code.nil_append, Frame.unwind_loop]
      exact .body hz
  | @leave body parent outer i hz =>
    cases hp with
    | @inside body' _ rest =>
      show Unfolds (.nil ++ Frame.unwind (.loop body rest) outer) i (Frame.unwind rest outer) i
      rw [Code.nil_append, Frame.unwind_loop]
      exact .skip hz

theorem Runs.of_unfolds {k l : Code} {i j : Interpreter} {r : Result} (hu : Unfolds k i l j)
    (h : Runs l j r) : Runs k i r := by
  cases hu with
  | act ha => exact .act ha h
  | skip hz => exact .skip hz h
  | body hz => exact .of_body hz h

theorem Runs.of_moves {code : Code} {m m' : Machine} {r : Result}
    (hp : Path code m.frame m.outer) (hm : m.Moves m') (h : Runs m'.remaining m'.state r) :
    Runs m.remaining m.state r :=
  .of_unfolds (hm.unfolds hp) h

theorem Runs.of_halts {m : Machine} {r : Result} (h : m.Halts r) : Runs m.remaining m.state r := by
  cases h with
  | finish => exact .nil
  | fault hp =>
    show Runs (Frame.unwind (.act _ _) _) _ _
    rw [Frame.unwind_act]
    exact .actStopped hp
  | foreign =>
    show Runs (Frame.unwind (.foreign _ _) _) _ _
    rw [Frame.unwind_foreign]
    exact .foreign

theorem Runs.of_endsAs {code : Code} {m : Machine} {r : Result} (hp : Path code m.frame m.outer)
    (h : m.EndsAs r) : Runs m.remaining m.state r := by
  obtain ⟨n, hn⟩ := h
  induction n generalizing m with
  | zero => exact absurd hn.symm (r.progress_ne_running m)
  | succ n ih =>
    rcases m.moves_or_halts with ⟨m', hm⟩ | ⟨s, hs⟩
    · rw [hm.runFor_succ] at hn
      exact .of_moves hp hm (ih (hp.of_moves hm) hn)
    · rw [hs.runFor_succ] at hn
      exact Result.progress_inj hn ▸ .of_halts hs

/-! ## From the semantics to the machine -/

/-- Where a machine stands when code in front of some frames has come to a
result: at the end of the body, or stopped. -/
def Result.within (body : Code) (outer : List Frame) : Result → Progress
  | finished i => .running ⟨⟨body, .nil⟩, outer, i⟩
  | stopped f i => .stopped f i

/-- At the end of its body a loop is met again. -/
theorem Machine.step_end_eq_step_loop (b k body : Code) (outer : List Frame) (i : Interpreter) :
    step ⟨⟨b, .nil⟩, ⟨body, .loop b k⟩ :: outer, i⟩ = step ⟨⟨body, .loop b k⟩, outer, i⟩ :=
  rfl

/-- Code in front of any frames is worked off as it runs by itself. -/
theorem Runs.runFor_eq {k : Code} {i : Interpreter} {r : Result} (h : Runs k i r) (body : Code)
    (outer : List Frame) :
    ∃ n, Machine.runFor n ⟨⟨body, k⟩, outer, i⟩ = r.within body outer := by
  induction h generalizing body outer with
  | nil => exact ⟨0, rfl⟩
  | act hp _ ih =>
    obtain ⟨n, hn⟩ := ih body outer
    exact ⟨n + 1, by rw [(Machine.Moves.act hp).runFor_succ]; exact hn⟩
  | actStopped hp =>
    exact ⟨1, by rw [(Machine.Halts.fault hp).runFor_succ]; rfl⟩
  | skip hz _ ih =>
    obtain ⟨n, hn⟩ := ih body outer
    exact ⟨n + 1, by rw [(Machine.Moves.skip hz).runFor_succ]; exact hn⟩
  | @pass b k i j r hz _ _ ihb ihr =>
    obtain ⟨n, hn⟩ := ihb b (⟨body, .loop b k⟩ :: outer)
    obtain ⟨l, hl⟩ := ihr body outer
    -- Work off the body, then go on from its end as from the loop; that takes a step.
    cases l with
    | zero => cases r <;> simp [Result.within] at hl
    | succ l =>
      refine ⟨n + (l + 1) + 1, ?_⟩
      rw [(Machine.Moves.enter hz).runFor_succ]
      show Machine.runFor (n + (l + 1)) _ = _
      rw [Machine.runFor_add, hn, ← hl]
      show Machine.runFor (l + 1) _ = _
      rw [Machine.runFor_succ, Machine.runFor_succ, Machine.step_end_eq_step_loop]
  | @passStopped b k i j f hz _ ihb =>
    obtain ⟨n, hn⟩ := ihb b (⟨body, .loop b k⟩ :: outer)
    exact ⟨n + 1, by rw [(Machine.Moves.enter hz).runFor_succ]; exact hn⟩
  | foreign => exact ⟨1, rfl⟩

theorem Runs.endsAs {k : Code} {i : Interpreter} {r : Result} (h : Runs k i r) :
    (Machine.ofCode k i).EndsAs r := by
  obtain ⟨n, hn⟩ := h.runFor_eq k []
  cases r with
  | finished j =>
    refine ⟨n + 1, ?_⟩
    rw [Machine.runFor_add, Machine.ofCode, hn]
    rfl
  | stopped f j => exact ⟨n, hn⟩

theorem Machine.endsAs_iff_runs {k : Code} {i : Interpreter} {r : Result} :
    (ofCode k i).EndsAs r ↔ Runs k i r :=
  ⟨fun h => .of_endsAs (Path.start k) h, Runs.endsAs⟩

/-- **The machine refines the recursive semantics.** Whatever code is run, on
whatever tape and against whatever streams: the machine finishes, or is
stopped by a fault, exactly when the semantics does, and leaves the same
interpreter; and it runs for ever exactly when the semantics has no result. -/
theorem Machine.refines_runs (k : Code) (i : Interpreter) :
    (∀ r, (ofCode k i).EndsAs r ↔ Runs k i r) ∧ ((ofCode k i).Endless ↔ ¬ ∃ r, Runs k i r) := by
  refine ⟨fun r => endsAs_iff_runs, ?_⟩
  rw [endless_iff]
  simp only [endsAs_iff_runs]

end Brainfuck
