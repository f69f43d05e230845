/-
What can be seen of a run that has no result: the states of its two streams
that it comes past.

`Passes` says this by recursion on the code, as `Runs` says what a run comes
to, and it is the same as what the machine comes past, step by step
(`passes_iff_runFor`). The two directions are those of the results: what is
left of a stack of frames before a step comes past everything that is left
after it does, and code in front of whatever frames is worked off until the
streams stand where they should.

An execution begins on a clear tape and with a note of its own. The note
apart, its outcome is that of its code on the state in which it begins
(`Interpreter.begun`), and so is what it comes past.
-/
import Brainfuck.Proofs.Lockstep
import Brainfuck.Proofs.Refinement

namespace Brainfuck

/-- The two streams of an interpreter. -/
structure Streams where
  source : Source
  sink : Sink

def Interpreter.streams (i : Interpreter) : Streams :=
  ⟨i.source, i.sink⟩

/-- A run of code from a state comes past these streams, whatever it comes to. -/
inductive Passes : Code → Interpreter → Streams → Prop where
  | here {k : Code} {i : Interpreter} : Passes k i i.streams
  | act {a : Action} {k : Code} {i j : Interpreter} {s : Streams} :
    i.perform a = .done j → Passes k j s → Passes (.act a k) i s
  | actStopped {a : Action} {k : Code} {i j : Interpreter} {f : Fault} :
    i.perform a = .fault f j → Passes (.act a k) i j.streams
  | skip {b k : Code} {i : Interpreter} {s : Streams} :
    i.tape.read = 0 → Passes k i s → Passes (.loop b k) i s
  | inside {b k : Code} {i : Interpreter} {s : Streams} :
    i.tape.read ≠ 0 → Passes b i s → Passes (.loop b k) i s
  | pass {b k : Code} {i j : Interpreter} {s : Streams} :
    i.tape.read ≠ 0 → Runs b i (.finished j) → Passes (.loop b k) j s → Passes (.loop b k) i s

/-! ## Code that stands in front of code -/

theorem Runs.append_stopped {k : Code} {i j : Interpreter} {f : Fault} (h : Runs k i (.stopped f j))
    (l : Code) : Runs (k ++ l) i (.stopped f j) := by
  generalize hr : Result.stopped f j = r at h
  induction h with
  | nil => cases hr
  | act hp _ ih => exact .act hp (ih hr)
  | actStopped hp => exact .actStopped hp
  | skip hz _ ih => exact .skip hz (ih hr)
  | pass hz hb _ _ ih => exact .pass hz hb (ih hr)
  | passStopped hz hb => exact .passStopped hz hb
  | foreign => exact .foreign

theorem Runs.append_finished {k l : Code} {i j : Interpreter} {r : Result}
    (h : Runs k i (.finished j)) (hl : Runs l j r) : Runs (k ++ l) i r := by
  generalize hj : Result.finished j = q at h
  induction h with
  | nil => cases hj; exact hl
  | act hp _ ih => exact .act hp (ih hj)
  | skip hz _ ih => exact .skip hz (ih hj)
  | pass hz hb _ _ ih => exact .pass hz hb (ih hj)
  | actStopped | passStopped | foreign => cases hj

theorem Runs.append_iff {k l : Code} {i : Interpreter} {r : Result} :
    Runs (k ++ l) i r ↔
      (∃ f j, r = .stopped f j ∧ Runs k i r) ∨ ∃ j, Runs k i (.finished j) ∧ Runs l j r := by
  constructor
  · exact Runs.of_append
  · rintro (⟨f, j, rfl, hk⟩ | ⟨j, hk, hl⟩)
    · exact hk.append_stopped l
    · exact hk.append_finished hl

namespace Passes

theorem of_append {k l : Code} {i : Interpreter} {s : Streams} (h : Passes (k ++ l) i s) :
    Passes k i s ∨ ∃ j, Runs k i (.finished j) ∧ Passes l j s := by
  generalize hkl : k ++ l = kl at h
  induction h generalizing k with
  | here => exact .inl .here
  | act hp hs ih =>
    rcases Code.append_eq_act hkl with ⟨rfl, rfl⟩ | ⟨k, rfl, hrest⟩
    · exact .inr ⟨_, .nil, .act hp hs⟩
    · rcases ih hrest with hk | ⟨j, hk, hl⟩
      · exact .inl (.act hp hk)
      · exact .inr ⟨j, .act hp hk, hl⟩
  | actStopped hp =>
    rcases Code.append_eq_act hkl with ⟨rfl, rfl⟩ | ⟨k, rfl, -⟩
    · exact .inr ⟨_, .nil, .actStopped hp⟩
    · exact .inl (.actStopped hp)
  | skip hz hs ih =>
    rcases Code.append_eq_loop hkl with ⟨rfl, rfl⟩ | ⟨k, rfl, hrest⟩
    · exact .inr ⟨_, .nil, .skip hz hs⟩
    · rcases ih hrest with hk | ⟨j, hk, hl⟩
      · exact .inl (.skip hz hk)
      · exact .inr ⟨j, .skip hz hk, hl⟩
  | inside hz hb _ =>
    rcases Code.append_eq_loop hkl with ⟨rfl, rfl⟩ | ⟨k, rfl, -⟩
    · exact .inr ⟨_, .nil, .inside hz hb⟩
    · exact .inl (.inside hz hb)
  | pass hz hb hs ih =>
    rcases Code.append_eq_loop hkl with ⟨rfl, rfl⟩ | ⟨k, rfl, rfl⟩
    · exact .inr ⟨_, .nil, .pass hz hb hs⟩
    · -- The further passes are those of the same loop, in front of the same code.
      rcases @ih (.loop _ k) rfl with hk | ⟨j, hk, hl⟩
      · exact .inl (.pass hz hb hk)
      · exact .inr ⟨j, .pass hz hb hk, hl⟩

theorem append {k : Code} {i : Interpreter} {s : Streams} (h : Passes k i s) (l : Code) :
    Passes (k ++ l) i s := by
  induction h with
  | here => exact .here
  | act hp _ ih => exact .act hp ih
  | actStopped hp => exact .actStopped hp
  | skip hz _ ih => exact .skip hz ih
  | inside hz hb _ => exact .inside hz hb
  | pass hz hb _ ih => exact .pass hz hb ih

theorem append_finished {k l : Code} {i j : Interpreter} {s : Streams}
    (h : Runs k i (.finished j)) (hl : Passes l j s) : Passes (k ++ l) i s := by
  generalize hj : Result.finished j = q at h
  induction h with
  | nil => cases hj; exact hl
  | act hp _ ih => exact .act hp (ih hj)
  | skip hz _ ih => exact .skip hz (ih hj)
  | pass hz hb _ _ ih => exact .pass hz hb (ih hj)
  | actStopped | passStopped | foreign => cases hj

theorem append_iff {k l : Code} {i : Interpreter} {s : Streams} :
    Passes (k ++ l) i s ↔ Passes k i s ∨ ∃ j, Runs k i (.finished j) ∧ Passes l j s := by
  constructor
  · exact of_append
  · rintro (hk | ⟨j, hk, hl⟩)
    · exact hk.append l
    · exact append_finished hk hl

/-- While the cell is not zero, a loop is its body in front of the loop. -/
theorem of_body {b k : Code} {i : Interpreter} {s : Streams} (hz : i.tape.read ≠ 0)
    (h : Passes (b ++ .loop b k) i s) : Passes (.loop b k) i s := by
  rcases h.of_append with hb | ⟨j, hb, hs⟩
  · exact .inside hz hb
  · exact .pass hz hb hs

/-! ## From the machine -/

theorem of_unfolds {k l : Code} {i j : Interpreter} {s : Streams} (hu : Unfolds k i l j)
    (h : Passes l j s) : Passes k i s := by
  cases hu with
  | act ha => exact .act ha h
  | skip hz => exact .skip hz h
  | body hz => exact .of_body hz h

theorem of_halts {m : Machine} {r : Result} (h : m.Halts r) :
    Passes m.remaining m.state r.progress.state.streams := by
  cases h with
  | finish | foreign => exact .here
  | fault hp =>
    show Passes (Frame.unwind (.act _ _) _) _ _
    rw [Frame.unwind_act]
    exact .actStopped hp

theorem of_runFor {code : Code} (n : Nat) {m : Machine} (hp : Path code m.frame m.outer) :
    Passes m.remaining m.state (m.runFor n).state.streams := by
  induction n generalizing m with
  | zero => exact .here
  | succ n ih =>
    rcases m.moves_or_halts with ⟨m', hm⟩ | ⟨r, hr⟩
    · rw [hm.runFor_succ]
      exact of_unfolds (hm.unfolds hp) (ih (hp.of_moves hm))
    · rw [hr.runFor_succ]
      exact of_halts hr

/-! ## To the machine -/

/-- Code in front of any frames comes past what it comes past by itself. -/
theorem runFor_eq {k : Code} {i : Interpreter} {s : Streams} (h : Passes k i s) (body : Code)
    (outer : List Frame) : ∃ n, (Machine.runFor n ⟨⟨body, k⟩, outer, i⟩).state.streams = s := by
  induction h generalizing body outer with
  | here => exact ⟨0, rfl⟩
  | act hp _ ih =>
    obtain ⟨n, hn⟩ := ih body outer
    exact ⟨n + 1, by rw [(Machine.Moves.act hp).runFor_succ]; exact hn⟩
  | actStopped hp =>
    exact ⟨1, by rw [(Machine.Halts.fault hp).runFor_succ]; rfl⟩
  | skip hz _ ih =>
    obtain ⟨n, hn⟩ := ih body outer
    exact ⟨n + 1, by rw [(Machine.Moves.skip hz).runFor_succ]; exact hn⟩
  | @inside b k i s hz _ ih =>
    obtain ⟨n, hn⟩ := ih b (⟨body, .loop b k⟩ :: outer)
    exact ⟨n + 1, by rw [(Machine.Moves.enter hz).runFor_succ]; exact hn⟩
  | @pass b k i j s hz hb _ ih =>
    obtain ⟨n, hn⟩ := hb.runFor_eq b (⟨body, .loop b k⟩ :: outer)
    obtain ⟨l, hl⟩ := ih body outer
    -- Work off the body; at its end the loop is met again, but only a step tells.
    refine ⟨n + l + 1, ?_⟩
    rw [(Machine.Moves.enter hz).runFor_succ]
    show (Machine.runFor (n + l) _).state.streams = s
    rw [Machine.runFor_add, hn, ← hl]
    cases l with
    | zero => rfl
    | succ l =>
      show (Machine.runFor (l + 1) _).state.streams = _
      rw [Machine.runFor_succ, Machine.runFor_succ, Machine.step_end_eq_step_loop]

end Passes

/-- The machine comes past just what the code says. -/
theorem passes_iff_runFor {k : Code} {i : Interpreter} {s : Streams} :
    (∃ n, ((Machine.ofCode k i).runFor n).state.streams = s) ↔ Passes k i s := by
  constructor
  · rintro ⟨n, rfl⟩
    exact .of_runFor (m := .ofCode k i) n (Path.start k)
  · intro h
    exact h.runFor_eq k []

/-! ## Executions -/

namespace Interpreter

/-- The state in which an execution begins, without the log. -/
def begun (i : Interpreter) : Interpreter :=
  { i with tape := i.tape.clear, starved := false, written := 0, log := [] }

/-- The lines in front of what the steps of an execution note. -/
def preamble (code : Code) (i : Interpreter) : List Event :=
  i.log ++ [.executing code.length code.nesting]

theorem machine_eq_begun (code : Code) (i : Interpreter) :
    i.machine code = (Machine.ofCode code i.begun).map (Change.logged (i.preamble code)).apply := by
  have hlog : i.preamble code = i.preamble code ++ [] := (List.append_nil _).symm
  simp only [machine, Machine.ofCode, start, note, Machine.map, Change.apply, Change.logged, begun,
    ← hlog]
  rfl

theorem run_eq_begun (n : Nat) (code : Code) (i : Interpreter) :
    i.run n code =
      (((Machine.ofCode code i.begun).runFor n).close.1,
        (Change.logged (i.preamble code)).apply ((Machine.ofCode code i.begun).runFor n).close.2) := by
  rw [run, machine_eq_begun, Change.close_runFor_logged]

/-- What an execution leaves of the world, with its ending. -/
theorem run_iff_runFor {n : Nat} {code : Code} {i : Interpreter} {e : Ending} {w : World} :
    (∃ j, i.run n code = (e, j) ∧ j.world = w) ↔
      ((Machine.ofCode code i.begun).runFor n).close.1 = e ∧
        ((Machine.ofCode code i.begun).runFor n).state.world = w := by
  rw [run_eq_begun, ← Progress.world_close]
  constructor
  · rintro ⟨j, hj, rfl⟩
    cases hj
    exact ⟨rfl, rfl⟩
  · rintro ⟨rfl, rfl⟩
    exact ⟨_, rfl, rfl⟩

/-- An execution that ends, ends as the code comes to a result. -/
theorem run_ends_iff {code : Code} {i : Interpreter} {e : Ending} {w : World}
    (he : e ≠ .unfinished) :
    (∃ n j, i.run n code = (e, j) ∧ j.world = w) ↔
      ∃ r, Runs code i.begun r ∧ r.progress.close.1 = e ∧ r.progress.state.world = w := by
  simp only [run_iff_runFor, ← Machine.endsAs_iff_runs, Machine.EndsAs]
  constructor
  · rintro ⟨n, hending, hworld⟩
    rcases ((Machine.ofCode code i.begun).runFor n).running_or_result with ⟨m, hm⟩ | ⟨r, hr⟩
    · rw [hm] at hending
      exact absurd hending.symm he
    · exact ⟨r, ⟨n, hr⟩, hr ▸ hending, hr ▸ hworld⟩
  · rintro ⟨r, ⟨n, hn⟩, hending, hworld⟩
    exact ⟨n, hn ▸ hending, hn ▸ hworld⟩

theorem run_unfinished_iff {code : Code} {i : Interpreter} :
    (∀ n, (i.run n code).1 = .unfinished) ↔ ¬ ∃ r, Runs code i.begun r := by
  simp only [← Machine.endsAs_iff_runs, ← Machine.endless_iff, run_eq_begun, Machine.Endless]
  refine forall_congr' fun n => ?_
  cases (Machine.ofCode code i.begun).runFor n <;> simp [Progress.close]

theorem run_streams_iff {code : Code} {i : Interpreter} {s : Streams} :
    (∃ n, (i.run n code).2.streams = s) ↔ Passes code i.begun s := by
  have hclose (p : Progress) : p.close.2.streams = p.state.streams := by
    cases p <;> rfl
  rw [← passes_iff_runFor]
  refine exists_congr fun n => ?_
  rw [run_eq_begun, ← hclose]
  rfl

end Interpreter

end Brainfuck
